import SheetScript.Proofs.Token.Lexeme

/-!
# How far a lexeme goes

Which characters of a source a lexeme takes, whatever stands there.

* `Escapes quote body value` says that the characters between the quotes of a string stand for its
  value.
* `IsSpan kind text span` says how a token is written: a string as such characters between its
  quotes, all else as its text. A fault may be any characters.
* `Lexeme.exists_span`: the longest lexeme at the front takes characters from there, at least one,
  and they are how it is written. It is no mark of the layout.
* `Lexeme.ofCons_line`: a lexeme that is no string stands on its line.
-/

namespace SheetScript.Text

variable {p : Char → Bool} {rest : List Char}

/-- What stops a class of characters does not matter to those before it. -/
theorem takeWhile_of_stops (front : List Char) (stops : Stops p rest) :
    (front ++ rest).takeWhile p = front.takeWhile p := by
  have none : rest.takeWhile p = [] := takeWhile_front (List.forall_mem_nil _) stops
  rw [List.takeWhile_append, none, List.append_nil]
  split
  · next all => exact ((List.takeWhile_prefix p).eq_of_length all).symm
  · rfl

theorem dropWhile_of_stops (front : List Char) (stops : Stops p rest) :
    (front ++ rest).dropWhile p = front.dropWhile p ++ rest := by
  have none : rest.dropWhile p = rest := dropWhile_front (List.forall_mem_nil _) stops
  rw [List.dropWhile_append, none]
  split
  · next all => rw [List.isEmpty_iff.1 all, List.nil_append]
  · rfl

end SheetScript.Text

namespace SheetScript.Token

/-- The characters between quotes stand for others. -/
inductive Escapes (quote : Char) : List Char → List Char → Prop
  | nil : Escapes quote [] []
  | escape (c : Char) {body value : List Char} (h : Escapes quote body value) :
      Escapes quote ('\\' :: c :: body) (Lexeme.unescape c :: value)
  | verbatim {c : Char} {body value : List Char} (no_escape : c ≠ '\\') (no_quote : c ≠ quote)
      (inline : c ≠ '\n') (h : Escapes quote body value) : Escapes quote (c :: body) (c :: value)

/-- The characters are how a token of this kind and text is written. -/
def IsSpan (kind : Kind) (text : String) (span : List Char) : Prop :=
  match kind with
  | .string value => ∃ quote body, (quote = '"' ∨ quote = '\'') ∧
      span = quote :: (body ++ [quote]) ∧ Escapes quote body value.toList
  | .fault _ => True
  | _ => text.toList = span

/-- The kinds of the layout. -/
def Kind.isLayout : Kind → Bool
  | mark m => m.isLayout
  | _ => false

theorem Kind.isMark_iff {kind : Kind} {m : Mark} : kind.isMark m = true ↔ kind = .mark m := by
  cases kind with
  | mark n => simp [isMark]
  | _ => simp [isMark]

namespace Lexeme

variable {c quote : Char} {cs rest span : List Char}

/-- The lexeme takes characters from the front and is written with them. -/
structure Spans (lexeme : Lexeme) (cs span : List Char) : Prop where
  front : span <+: cs
  some : span ≠ []
  length_eq : lexeme.length = span.length
  isSpan : IsSpan lexeme.kind lexeme.text span
  no_layout : lexeme.kind.isLayout = false

/-- A lexeme that takes its own text. -/
theorem spans_plain {kind : Kind} (front : span <+: cs) (some : span ≠ [])
    (itself : ∀ value, kind ≠ .string value) (no_layout : kind.isLayout = false) :
    (plain kind span).Spans cs span := by
  refine ⟨front, some, rfl, ?_, no_layout⟩
  cases kind with
  | string value => exact absurd rfl (itself value)
  | fault => exact trivial
  | _ => exact String.toList_ofList

/-! ## Numbers and names -/

theorem prefix_point (cs : List Char) :
    (if (fractionDigits cs).isEmpty then [] else '.' :: fractionDigits cs) <+: cs := by
  cases cs with
  | nil => exact List.prefix_rfl
  | cons c cs =>
    split
    · exact List.nil_prefix
    · next some =>
      unfold fractionDigits at some ⊢
      split at some
      · next eq =>
        cases eq
        exact List.cons_prefix_cons.2 ⟨rfl, List.takeWhile_prefix _⟩
      · exact absurd rfl some

theorem spans_number (h : Text.isDecimalDigit c = true ∨ c = '.' ∧ digitAhead rest = true) :
    ∃ span, (number (c :: rest)).Spans (c :: rest) span := by
  have front : (c :: rest).takeWhile Text.isDecimalDigit ++ _ <+: _ ++ _ :=
    (List.prefix_append_right_inj _).2 (prefix_point ((c :: rest).dropWhile Text.isDecimalDigit))
  rw [List.takeWhile_append_dropWhile] at front
  refine ⟨_, spans_plain front ?_ (fun _ => nofun) rfl⟩
  obtain digit | ⟨rfl, digits⟩ := h
  · rw [List.takeWhile_cons_of_pos digit]
    exact List.cons_ne_nil _ _
  · have no_digit : ¬ Text.isDecimalDigit '.' = true := by decide
    obtain ⟨d, rest, rfl⟩ : ∃ d rest', rest = d :: rest' := by
      cases rest with
      | nil => cases digits
      | cons d rest => exact ⟨d, rest, rfl⟩
    have digit : Text.isDecimalDigit d = true := digits
    rw [List.takeWhile_cons_of_neg no_digit, List.dropWhile_cons_of_neg no_digit, fractionDigits,
      List.takeWhile_cons_of_pos digit]
    exact List.cons_ne_nil _ _

theorem not_isLayout_of_lookup {α : Type} [BEq α] [LawfulBEq α] {table : List (α × Mark)} {key : α}
    {m : Mark} (h : table.lookup key = some m)
    (all : ∀ entry ∈ table, entry.2.isLayout = false) : m.isLayout = false := by
  obtain ⟨before, behind, eq, -⟩ := List.lookup_eq_some_iff.1 h
  exact all (key, m) (by rw [eq]; simp)

theorem spans_name (h : startsName c = true) :
    ∃ span, (name (c :: rest)).Spans (c :: rest) span := by
  refine ⟨_, spans_plain (List.takeWhile_prefix inName) ?_ (fun value => ?_) ?_⟩
  · rw [List.takeWhile_cons_of_pos (inName_of_startsName h)]
    exact List.cons_ne_nil _ _
  · split <;> exact nofun
  · split
    · next m word => exact not_isLayout_of_lookup word (by decide)
    · rfl

/-! ## Strings -/

/-- The end of a string: how many characters it takes and, if it is closed, what they are. -/
theorem exists_escapes (quote : Char) (before : List Char) (length : Nat) (cs : List Char) :
    ∃ taken, (bodyFrom quote before length cs).length = length + taken ∧ taken ≤ cs.length ∧
      ((bodyFrom quote before length cs).closed = true → ∃ body value,
        cs.take taken = body ++ [quote] ∧ Escapes quote body value ∧
        (bodyFrom quote before length cs).value = before.reverse ++ value) := by
  fun_induction bodyFrom quote before length cs with
  | case1 before length => exact ⟨0, rfl, Nat.le_refl 0, nofun⟩
  | case2 before length => exact ⟨1, rfl, Nat.le_refl 1, nofun⟩
  | case3 before length c rest ih =>
    obtain ⟨taken, eq, within, ends⟩ := ih
    refine ⟨taken + 2, by omega, Nat.add_le_add_right within 2, fun closed => ?_⟩
    obtain ⟨body, value, front, escapes, all⟩ := ends closed
    exact ⟨'\\' :: c :: body, unescape c :: value, by simp [front], .escape c escapes,
      by simp [all]⟩
  | case4 before length c rest _ _ closes =>
    refine ⟨1, rfl, Nat.succ_le_succ (Nat.zero_le _), fun _ => ?_⟩
    exact ⟨[], [], by simp [beq_iff_eq.1 closes], .nil, by simp⟩
  | case5 before length c rest => exact ⟨0, rfl, Nat.zero_le _, nofun⟩
  | case6 before length c rest ends escapes open_quote inline ih =>
    obtain ⟨taken, eq, within, ends'⟩ := ih
    refine ⟨taken + 1, by omega, Nat.succ_le_succ within, fun closed => ?_⟩
    obtain ⟨body, value, front, escaped, all⟩ := ends' closed
    have no_escape : c ≠ '\\' := fun slash => by
      cases rest with
      | nil => exact ends slash rfl
      | cons c' rest => exact escapes c' rest slash rfl
    have verbatim := Escapes.verbatim no_escape (fun eq => open_quote (beq_iff_eq.2 eq))
      (fun eq => inline (beq_iff_eq.2 eq)) escaped
    exact ⟨c :: body, c :: value, by simp [front], verbatim, by simp [all]⟩

theorem bodyFrom_cons (before : List Char) (length : Nat) (no_escape : c ≠ '\\') :
    bodyFrom quote before length (c :: rest) =
      if c == quote then ⟨before.reverse, true, length + 1⟩
      else if c == '\n' then ⟨before.reverse, false, length⟩
      else bodyFrom quote (c :: before) (length + 1) rest := by
  rw [bodyFrom]
  · exact fun slash => absurd slash no_escape
  · exact fun _ _ slash => absurd slash no_escape

theorem ofCons_quote (isQuote : c = '"' ∨ c = '\'') (rest : List Char) :
    ofCons c rest = string c rest := by
  have no_name : startsName c = false := by
    rw [startsName]
    obtain rfl | rfl := isQuote
    · rw [Text.isLetter_of_ascii (by decide)]
      rfl
    · rw [Text.isLetter_of_ascii (by decide)]
      rfl
  have no_number : (Text.isDecimalDigit c || (c == '.' && digitAhead rest)) = false := by
    obtain rfl | rfl := isQuote <;> rfl
  unfold ofCons
  rw [if_neg (Bool.eq_false_iff.1 no_number), if_neg (by simp [no_name]),
    if_pos (by simpa using isQuote)]

theorem length_string (quote : Char) (rest : List Char) :
    (string quote rest).length = (bodyFrom quote [] 0 rest).length + 1 := by
  unfold string
  dsimp only
  split <;> rfl

theorem spans_string (isQuote : quote = '"' ∨ quote = '\'') :
    ∃ span, (string quote rest).Spans (quote :: rest) span := by
  obtain ⟨taken, eq, within, ends⟩ := exists_escapes quote [] 0 rest
  refine ⟨quote :: rest.take taken, ?_⟩
  have front : quote :: rest.take taken <+: quote :: rest :=
    List.cons_prefix_cons.2 ⟨rfl, List.take_prefix _ _⟩
  have length : (bodyFrom quote [] 0 rest).length + 1 = (quote :: rest.take taken).length := by
    rw [eq, Nat.zero_add, List.length_cons, List.length_take_of_le within]
  unfold string
  dsimp only
  split
  · next closed =>
    obtain ⟨body, value, taken, escapes, all⟩ := ends closed
    refine ⟨front, List.cons_ne_nil _ _, length, ⟨quote, body, isQuote, by rw [taken], ?_⟩, rfl⟩
    rw [all]
    simpa using escapes
  · exact ⟨front, List.cons_ne_nil _ _, length, trivial, rfl⟩

/-! ## Operators and delimiters -/

theorem spans_symbol (c : Char) (rest : List Char) :
    ∃ span, (symbol c rest).Spans (c :: rest) span := by
  have single : [c] <+: c :: rest := List.cons_prefix_cons.2 ⟨rfl, List.nil_prefix⟩
  unfold symbol
  dsimp only
  split
  · next next m eq =>
    obtain ⟨c', ahead, eq⟩ := Option.bind_eq_some_iff.1 eq
    obtain ⟨m', known, same⟩ := Option.bind_eq_some_iff.1 eq
    obtain ⟨rfl, rfl⟩ := Prod.mk.inj (Option.some.inj same)
    obtain ⟨rest, rfl⟩ := List.head?_eq_some_iff.1 ahead
    have pair : [c, c'] <+: c :: c' :: rest :=
      List.cons_prefix_cons.2 ⟨rfl, List.cons_prefix_cons.2 ⟨rfl, List.nil_prefix⟩⟩
    refine ⟨_, spans_plain pair (List.cons_ne_nil _ _) (fun _ => nofun) ?_⟩
    exact not_isLayout_of_lookup known (by decide)
  · split
    · next m known =>
      refine ⟨_, spans_plain single (List.cons_ne_nil _ _) (fun _ => nofun) ?_⟩
      exact not_isLayout_of_lookup known (by decide)
    · exact ⟨_, spans_plain single (List.cons_ne_nil _ _) (fun _ => nofun) rfl⟩

/-- **A lexeme takes what it is written with**: at least one character, from the front. -/
theorem exists_span (c : Char) (rest : List Char) :
    ∃ span, (ofCons c rest).Spans (c :: rest) span := by
  unfold ofCons
  split
  · next number =>
    refine spans_number ?_
    simpa using number
  · split
    · next starts => exact spans_name starts
    · split
      · next quote => exact spans_string (by simpa using quote)
      · exact spans_symbol c rest

/-! ## Lines -/

variable {line behind : List Char}

/-- A text is its first line and what is behind it. -/
theorem exists_line (cs : List Char) : ∃ line behind, cs = line ++ behind ∧ '\n' ∉ line ∧
    ∀ c ∈ behind.head?, c = '\n' := by
  induction cs with
  | nil => exact ⟨[], [], rfl, List.not_mem_nil, nofun⟩
  | cons c cs ih =>
    by_cases feed : c = '\n'
    · exact ⟨[], c :: cs, rfl, List.not_mem_nil, fun d mem => Option.some.inj mem ▸ feed⟩
    · obtain ⟨line, behind, rfl, inline, ends⟩ := ih
      exact ⟨c :: line, behind, rfl,
        List.not_mem_cons_of_ne_of_not_mem (Ne.symm feed) inline, ends⟩

/-- A line ends at the front. -/
def AtLineEnd (behind : List Char) : Prop := ∀ c ∈ behind.head?, c = '\n' ∨ c = '\r'

theorem AtLineEnd.stops (ends : AtLineEnd behind) {p : Char → Bool} (feed : p '\n' = false)
    (carriage : p '\r' = false) : Text.Stops p behind := fun c mem => by
  obtain rfl | rfl := ends c mem
  · exact feed
  · exact carriage

theorem digitAhead_line (ends : AtLineEnd behind) :
    digitAhead (line ++ behind) = digitAhead line := by
  cases line with
  | cons c line => rfl
  | nil =>
    cases behind with
    | nil => rfl
    | cons c behind => exact (ends.stops rfl rfl : Text.Stops Text.isDecimalDigit _) c rfl

theorem fractionDigits_line (ends : AtLineEnd behind) :
    fractionDigits (line ++ behind) = fractionDigits line := by
  cases line with
  | nil =>
    cases behind with
    | nil => rfl
    | cons c behind => obtain rfl | rfl := ends c rfl <;> rfl
  | cons c line =>
    unfold fractionDigits
    split
    · next eq =>
      cases eq
      exact Text.takeWhile_of_stops line (ends.stops rfl rfl)
    · next other =>
      split
      · next eq =>
        cases eq
        exact absurd rfl (other (line ++ behind))
      · rfl

/-- No operator ends with the end of a line. -/
theorem lookup_lineEnd {d : Char} (ends : d = '\n' ∨ d = '\r') :
    Mark.pairs.lookup (c, d) = none := by
  rw [List.lookup_eq_none_iff]
  have all : ∀ entry ∈ Mark.pairs, entry.1.2 ≠ '\n' ∧ entry.1.2 ≠ '\r' := by decide
  intro entry mem
  rw [bne_iff_ne]
  intro key
  have second : d = entry.1.2 := congrArg Prod.snd key
  obtain ⟨feed, carriage⟩ := all entry mem
  rw [← second] at feed carriage
  exact ends.elim feed carriage

theorem symbol_line (ends : AtLineEnd behind) : symbol c (line ++ behind) = symbol c line := by
  cases line with
  | cons _ line => rfl
  | nil =>
    cases behind with
    | nil => rfl
    | cons d behind =>
      unfold symbol
      simp [lookup_lineEnd (ends d rfl)]

/-- **A lexeme that is no string stands on its line**: what is behind the line does not matter. -/
theorem ofCons_line (no_quote : ¬(c = '"' ∨ c = '\'')) (ends : AtLineEnd behind) :
    ofCons c (line ++ behind) = ofCons c line := by
  unfold ofCons
  rw [digitAhead_line ends, symbol_line ends]
  have number : number (c :: (line ++ behind)) = number (c :: line) := by
    unfold Lexeme.number
    rw [← List.cons_append, Text.takeWhile_of_stops _ (ends.stops rfl rfl),
      Text.dropWhile_of_stops _ (ends.stops rfl rfl), fractionDigits_line ends]
  have name : name (c :: (line ++ behind)) = name (c :: line) := by
    unfold Lexeme.name
    rw [← List.cons_append,
      Text.takeWhile_of_stops _ (ends.stops (by decide) (by decide))]
  rw [number, name]
  simp [no_quote]

/-- A lexeme that is no string takes characters of its line only. -/
theorem drop_ofCons_line (no_quote : ¬(c = '"' ∨ c = '\'')) (ends : AtLineEnd behind) :
    (c :: (line ++ behind)).drop (ofCons c (line ++ behind)).length =
      (c :: line).drop (ofCons c line).length ++ behind := by
  obtain ⟨span, spans⟩ := exists_span c line
  rw [ofCons_line no_quote ends, ← List.cons_append,
    List.drop_append_of_le_length (spans.length_eq ▸ spans.front.length_le)]

end Lexeme

end SheetScript.Token
