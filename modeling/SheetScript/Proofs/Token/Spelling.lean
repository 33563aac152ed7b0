import SheetScript.Proofs.Token.Lexer

/-!
# Spellings of single tokens

How each class of tokens is spelled, with what may follow it. A name or a word ends where no name
goes on, a number where no number goes on; a delimiter ends by itself.
-/

namespace SheetScript.Token

open Lexer Lexeme

/-- The spelling of a kind ends by itself. -/
abbrev Anywhere : List Char → Prop := fun _ => True

/-- A blank follows. -/
def BlankAhead (rest : List Char) : Prop := ∃ behind, rest = ' ' :: behind

variable {c : Char} {front : List Char} {m : Mark}

/-! ## Names, words and literals -/

theorem begins_of_startsName (h : startsName c) : Begins c where
  no_blank := isBlank_of_startsName h
  no_comment := by
    rintro rfl
    rw [startsName, Text.isLetter_of_ascii (by decide)] at h
    cases h
  no_continuation := by
    rintro rfl
    rw [startsName, Text.isLetter_of_ascii (by decide)] at h
    cases h

theorem begins_of_isDecimalDigit (h : Text.isDecimalDigit c) : Begins c where
  no_blank := Text.isBlank_of_isDecimalDigit h
  no_comment := by
    rintro rfl
    cases h
  no_continuation := by
    rintro rfl
    cases h

theorem newline_not_mem_of_spelt (h : Spelt (c :: front)) : '\n' ∉ front := fun mem => by
  have goes := h.2 _ mem
  rw [inName, Text.isLetter_of_ascii (by decide)] at goes
  revert goes
  decide

/-- A word of the language. -/
theorem spells_word {s : String} (spelt : Spelt s.toList) (word : Mark.ofWord? s = some m)
    (no_layout : m.isLayout = false) : Spells (Text.Stops inName) s.toList [.mark m] := by
  have letters := name_of_spelt spelt
  cases text : s.toList with
  | nil =>
    rw [text] at spelt
    exact spelt.elim
  | cons c front =>
    rw [text] at spelt letters
    refine spells_lexeme (begins_of_startsName spelt.1) (newline_not_mem_of_spelt spelt)
      (fun n eq => by cases eq; exact no_layout) fun rest stops => ?_
    rw [ofCons_spelt spelt stops, letters, word]

/-- A name. -/
theorem spells_name {s : String} (h : IsName s) :
    Spells (Text.Stops inName) s.toList [.name s] := by
  obtain ⟨spelt, free⟩ := h
  have letters := name_of_spelt spelt
  cases text : s.toList with
  | nil =>
    rw [text] at spelt
    exact spelt.elim
  | cons c front =>
    rw [text] at spelt letters
    refine spells_lexeme (begins_of_startsName spelt.1) (newline_not_mem_of_spelt spelt)
      (fun n eq => by cases eq) fun rest stops => ?_
    rw [ofCons_spelt spelt stops, letters, free]

/-- A number literal, if its text reads back. -/
theorem spells_number {x : Float} (h : Number.Unsigned x) (back : Number.ReadsBack x) :
    Spells EndsNumber (Number.positional x).toList [.number x] := by
  obtain ⟨whole, fraction, written⟩ := h.written
  have value : Number.ofDigits whole fraction = x :=
    Option.some.inj ((Number.read?_written written).symm.trans back)
  obtain ⟨c, digits, cons⟩ := List.exists_cons_of_ne_nil written.some
  have digit : Text.isDecimalDigit c := written.whole c (by rw [cons]; exact List.mem_cons_self ..)
  have no_end : '\n' ∉ digits ++ Number.point fraction := by
    intro mem
    rcases List.mem_append.1 mem with mem | mem
    · cases written.whole '\n' (by rw [cons]; exact List.mem_cons_of_mem _ mem)
    · unfold Number.point at mem
      split_ifs at mem
      · exact absurd mem List.not_mem_nil
      · rcases List.mem_cons.1 mem with eq | mem
        · cases eq
        · cases written.fraction '\n' mem
  have text : (Number.positional x).toList = c :: (digits ++ Number.point fraction) := by
    rw [written.eq, cons, List.cons_append]
  rw [text] at written ⊢
  refine spells_lexeme (begins_of_isDecimalDigit digit) no_end (fun n eq => by cases eq)
    fun rest ends => ?_
  rw [ofCons_number written ends, value]

/-- A string literal. -/
theorem spells_string {s : String} (h : ∀ c ∈ s.toList, IsVerbatim c) :
    Spells Anywhere ('"' :: (s.toList ++ ['"'])) [.string s] := by
  refine spells_lexeme ⟨by decide, by decide, by decide⟩ (fun mem => ?_) (fun n eq => by cases eq)
    fun rest _ => ?_
  · rcases List.mem_append.1 mem with mem | mem
    · exact (h _ mem).2.2 rfl
    · simp at mem
  · rw [List.append_assoc, List.singleton_append, ofCons_string h, String.ofList_toList]
    simp [plain]

/-! ## Operators and delimiters -/

/-- No operator of two characters is ahead. -/
def Alone (c : Char) (rest : List Char) : Prop :=
  ∀ next ∈ rest.head?, ∀ pair ∈ Mark.pairs, pair.1 ≠ (c, next)

theorem symbol_alone {rest : List Char} (single : Mark.singles.lookup c = some m)
    (alone : Alone c rest) : symbol c rest = plain (.mark m) [c] := by
  have none_found : ∀ next ∈ rest.head?, Mark.pairs.lookup (c, next) = none := fun next mem => by
    rw [List.lookup_eq_none_iff]
    exact fun pair found => by simpa using (alone next mem pair found).symm
  unfold symbol
  cases rest with
  | nil => simp [single]
  | cons next rest => simp [single, none_found next rfl]

/-- Operators and delimiters of one character. -/
theorem spells_symbol {follow : List Char → Prop} (single : (c, m) ∈ Mark.singles)
    (alone : ∀ rest, follow rest → Alone c rest)
    (point : ∀ rest, follow rest → c = '.' → digitAhead rest = false) :
    Spells follow [c] [.mark m] := by
  have facts : ∀ single ∈ Mark.singles, Text.isBlank single.1 = false ∧ single.1 ≠ '#' ∧
      single.1 ≠ '\\' ∧ single.2.isLayout = false ∧
      Mark.singles.lookup single.1 = some single.2 := by decide
  obtain ⟨no_blank, no_comment, no_continuation, no_layout, found⟩ := facts (c, m) single
  refine spells_lexeme ⟨no_blank, no_comment, no_continuation⟩ List.not_mem_nil
    (fun n eq => by cases eq; exact no_layout) fun rest right => ?_
  rw [List.nil_append, ofCons_symbol (List.mem_map_of_mem single) (point rest right),
    symbol_alone found (alone rest right)]

/-- The delimiters that no operator starts with, and no number. -/
def delimiters : List (Char × Mark) :=
  [('(', .leftParen), (')', .rightParen), ('[', .leftBracket), (']', .rightBracket),
    ('\x7b', .leftBrace), ('\x7d', .rightBrace), (',', .comma), (':', .colon)]

/-- A delimiter. -/
theorem spells_delimiter (h : (c, m) ∈ delimiters) : Spells Anywhere [c] [.mark m] := by
  have facts : ∀ delimiter ∈ delimiters, delimiter ∈ Mark.singles ∧ delimiter.1 ≠ '.' ∧
      ∀ pair ∈ Mark.pairs, delimiter.1 ≠ pair.1.1 := by decide
  obtain ⟨single, no_point, apart⟩ := facts (c, m) h
  refine spells_symbol single (fun _ _ next _ pair mem eq => ?_) fun _ _ eq => absurd eq no_point
  exact apart pair mem (congrArg Prod.fst eq).symm

/-- A point that no digit follows. -/
theorem spells_dot : Spells (fun rest => digitAhead rest = false) ['.'] [.mark .dot] := by
  have apart : ∀ pair ∈ Mark.pairs, pair.1.1 ≠ '.' := by decide
  exact spells_symbol (by decide) (fun _ _ _ _ pair mem eq => apart pair mem (congrArg Prod.fst eq))
    fun _ right _ => right

/-- A minus that is not part of an assignment. -/
theorem spells_minus :
    Spells (fun rest => ∀ next ∈ rest.head?, next ≠ '=') ['-'] [.mark .minus] := by
  have assigns : ∀ pair ∈ Mark.pairs, pair.1.1 = '-' → pair.1.2 = '=' := by decide
  refine spells_symbol (by decide) (fun _ right next ahead pair mem eq => ?_)
    fun _ _ eq => absurd eq (by decide)
  exact right next ahead ((congrArg Prod.snd eq).symm.trans
    (assigns pair mem (congrArg Prod.fst eq)))

/-- An operator of one character that a blank follows. -/
theorem spells_before_blank (single : (c, m) ∈ Mark.singles) (no_point : c ≠ '.') :
    Spells BlankAhead [c] [.mark m] := by
  have apart : ∀ pair ∈ Mark.pairs, pair.1.2 ≠ ' ' := by decide
  refine spells_symbol single ?_ fun _ _ eq => absurd eq no_point
  rintro _ ⟨behind, rfl⟩ next ahead pair mem eq
  obtain rfl := Option.some.inj ahead
  exact apart pair mem (congrArg Prod.snd eq)

/-- An operator of two characters, the first of which is also one by itself. -/
theorem spells_pair {d : Char} (pair : ((c, d), m) ∈ Mark.pairs) (starts : c ∈ symbols) :
    Spells Anywhere [c, d] [.mark m] := by
  have facts : ∀ pair ∈ Mark.pairs, Mark.pairs.lookup pair.1 = some pair.2 ∧
      pair.2.isLayout = false ∧ pair.1.2 ≠ '\n' ∧ pair.1.1 ≠ '.' := by decide
  have begin_lexemes : ∀ c ∈ symbols, Text.isBlank c = false ∧ c ≠ '#' ∧ c ≠ '\\' :=
    List.all_iff_forall_prop.1 (by decide)
  obtain ⟨found, no_layout, no_end, no_point⟩ := facts _ pair
  obtain ⟨no_blank, no_comment, no_continuation⟩ := begin_lexemes c starts
  refine spells_lexeme ⟨no_blank, no_comment, no_continuation⟩
    (fun mem => no_end (List.mem_singleton.1 mem).symm) (fun n eq => by cases eq; exact no_layout)
    fun rest _ => ?_
  rw [List.singleton_append, ofCons_symbol starts fun eq => absurd eq no_point]
  unfold symbol
  simp [found]

end SheetScript.Token
