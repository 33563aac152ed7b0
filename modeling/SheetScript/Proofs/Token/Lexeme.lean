import Mathlib.Data.Bool.AllAny
import Mathlib.Data.List.Chain
import Mathlib.Data.List.TakeDrop
import Mathlib.Tactic.SplitIfs
import SheetScript.Number.Notation
import SheetScript.Token.Lexeme

/-!
# Lexemes at the front of a text

What `Lexeme.ofCons` reads when a known spelling stands at the front, for each class of lexemes: how
far the lexeme goes depends on the first character behind it at most.

* The letters and the numerals are the code points that their tables list, for the tables are in
  order (`Text.isLetter_iff`, `Text.isNumeral_iff`).
* The classes of characters are apart: a letter is no digit and no blank
  (`Text.isLetter_of_isDecimalDigit`, `Text.isLetter_of_isBlank`).
* `Lexeme.ofCons_spelt`, `ofCons_number`, `ofCons_string` and `ofCons_symbol` are the lexemes.
* `Number.Written` is what the text of a double without a sign is made of, and
  `Number.read?_written` what such a text is read as.
-/

namespace SheetScript

/-! ## Classes of characters -/

namespace Text

variable {c : Char}

theorem isDecimalDigit_iff : isDecimalDigit c ↔ 48 ≤ c.toNat ∧ c.toNat ≤ 57 := by
  unfold isDecimalDigit
  rw [Bool.and_eq_true, decide_eq_true_iff, decide_eq_true_iff]
  exact Iff.rfl

/-- In a table in order, ending the search early loses no range. -/
theorem Ranges.covers_iff {ranges : Ranges} (ordered : (ranges.map Prod.fst).IsChain (· < ·))
    {code : Nat} : ranges.covers code ↔ ∃ range ∈ ranges, range.1 ≤ code ∧ code ≤ range.2 := by
  rw [List.isChain_iff_pairwise, List.pairwise_map] at ordered
  induction ranges with
  | nil => simp [covers]
  | cons range rest ih =>
    obtain ⟨above, ordered⟩ := List.pairwise_cons.1 ordered
    rw [covers, Bool.and_eq_true, Bool.or_eq_true, decide_eq_true_iff, decide_eq_true_iff,
      ih ordered, List.exists_mem_cons_iff, and_or_left]
    refine or_congr_right ⟨And.right, fun ⟨later, mem, least, most⟩ => ⟨?_, later, mem, least, most⟩⟩
    have := above later mem
    omega

/-- The letters are the code points the table lists. -/
theorem isLetter_iff :
    isLetter c ↔ ∃ range ∈ letterRanges, range.1 ≤ c.toNat ∧ c.toNat ≤ range.2 :=
  Ranges.covers_iff (by decide +kernel)

/-- The numerals are the code points the table lists. -/
theorem isNumeral_iff :
    isNumeral c ↔ ∃ range ∈ numeralRanges, range.1 ≤ c.toNat ∧ c.toNat ≤ range.2 :=
  Ranges.covers_iff (by decide +kernel)

/-- No letter is in a gap of the table. -/
theorem isLetter_of_gap {low high : Nat}
    (gap : ∀ range ∈ letterRanges, range.2 < low ∨ high < range.1) (least : low ≤ c.toNat)
    (most : c.toNat ≤ high) : isLetter c = false := by
  rw [Bool.eq_false_iff, Ne, isLetter_iff]
  rintro ⟨range, mem, first, last⟩
  have apart := gap range mem
  omega

/-- Before `A`, between `Z` and `a`, and behind `z` stand no letters. -/
theorem isLetter_of_ascii
    (h : c.toNat ≤ 0x40 ∨ 0x5b ≤ c.toNat ∧ c.toNat ≤ 0x60 ∨ 0x7b ≤ c.toNat ∧ c.toNat ≤ 0xa9) :
    isLetter c = false := by
  rcases h with most | ⟨least, most⟩ | ⟨least, most⟩
  · exact isLetter_of_gap (by decide +kernel) (Nat.zero_le _) most
  · exact isLetter_of_gap (by decide +kernel) least most
  · exact isLetter_of_gap (by decide +kernel) least most

theorem isLetter_of_isBlank (h : isBlank c) : isLetter c = false := by
  have code : c.toNat ≤ 0xa9 ∧ (c.toNat ≤ 0x40 ∨ 0x7b ≤ c.toNat) ∨ c.toNat = 0x1680 ∨
      0x2000 ≤ c.toNat ∧ c.toNat ≤ 0x2070 ∨ c.toNat = 0x3000 := by
    unfold isBlank at h
    simp only [Bool.or_eq_true, Bool.and_eq_true, decide_eq_true_iff, beq_iff_eq] at h
    omega
  rcases code with ⟨most, apart⟩ | eq | ⟨least, most⟩ | eq
  · exact isLetter_of_ascii (by omega)
  · exact isLetter_of_gap (by decide +kernel) (Nat.le_of_eq eq.symm) (Nat.le_of_eq eq)
  · exact isLetter_of_gap (by decide +kernel) least most
  · exact isLetter_of_gap (by decide +kernel) (Nat.le_of_eq eq.symm) (Nat.le_of_eq eq)

theorem mem_digits_of_isDecimalDigit (h : isDecimalDigit c) : c ∈ "0123456789".toList := by
  obtain ⟨low, high⟩ := isDecimalDigit_iff.1 h
  have code : c.toNat ∈ List.range' 48 10 := List.mem_range'_1.2 ⟨low, by omega⟩
  rw [← Char.ofNat_toNat c]
  generalize c.toNat = n at code
  revert n
  decide

theorem isLetter_of_isDecimalDigit (h : isDecimalDigit c) : isLetter c = false :=
  isLetter_of_ascii (by have := isDecimalDigit_iff.1 h; omega)

theorem isBlank_of_isDecimalDigit (h : isDecimalDigit c) : isBlank c = false := by
  have all : ∀ c ∈ "0123456789".toList, isBlank c = false :=
    List.all_iff_forall_prop.1 (by decide)
  exact all c (mem_digits_of_isDecimalDigit h)

/-- No word for a number starts with a digit. -/
theorem toLower_of_isDecimalDigit (h : isDecimalDigit c) : c.toLower ≠ 'i' ∧ c.toLower ≠ 'n' := by
  have all : ∀ c ∈ "0123456789".toList, c.toLower ≠ 'i' ∧ c.toLower ≠ 'n' :=
    List.all_iff_forall_prop.1 (by decide)
  exact all c (mem_digits_of_isDecimalDigit h)

variable {p : Char → Bool} {front rest : List Char}

/-- Nothing that goes on with a class of characters stands at the front. -/
def Stops (p : Char → Bool) (rest : List Char) : Prop := ∀ c ∈ rest.head?, p c = false

theorem takeWhile_front (all : ∀ c ∈ front, p c) (stops : Stops p rest) :
    (front ++ rest).takeWhile p = front := by
  rw [List.takeWhile_append_of_pos all]
  cases rest with
  | nil => exact List.append_nil front
  | cons c rest => rw [List.takeWhile_cons_of_neg (by rw [stops c rfl]; decide), List.append_nil]

theorem dropWhile_front (all : ∀ c ∈ front, p c) (stops : Stops p rest) :
    (front ++ rest).dropWhile p = rest := by
  rw [List.dropWhile_append_of_pos all]
  cases rest with
  | nil => rfl
  | cons c rest => rw [List.dropWhile_cons_of_neg (by rw [stops c rfl]; decide)]

end Text

/-! ## Numbers -/

namespace Number

/-- Digits with a point before the fraction, if there is one. -/
def point (fraction : List Char) : List Char := if fraction.isEmpty then [] else '.' :: fraction

/-- A text is digits and a fraction, without a sign. -/
structure Written (text whole fraction : List Char) : Prop where
  eq : text = whole ++ point fraction
  some : whole ≠ []
  whole : ∀ c ∈ whole, Text.isDecimalDigit c
  fraction : ∀ c ∈ fraction, Text.isDecimalDigit c

/-- The double is finite and has no sign; a zero that is written `-0` has one. -/
def Unsigned (x : Float) : Prop :=
  ∃ mantissa exponent, Binary.ofFloat x = .finite false mantissa exponent

/-- The text of a double is read as the double. -/
def ReadsBack (x : Float) : Prop := read? (positional x) = some x

theorem isDecimalDigit_of_mem_digitList {n : Nat} {c : Char} (h : c ∈ digitList n) :
    Text.isDecimalDigit c := by
  have digit := Nat.isDigit_of_mem_toDigits (by decide) (by decide) h
  unfold Char.isDigit at digit
  unfold Text.isDecimalDigit
  exact digit

theorem point_of_ne_nil {fraction : List Char} (h : fraction ≠ []) :
    point fraction = '.' :: fraction := by
  rw [point, if_neg (by simpa using h)]

theorem written_positional (d : Decimal) :
    ∃ whole fraction, Written d.positional whole fraction := by
  have digits : ∀ c ∈ digitList d.digits, Text.isDecimalDigit c :=
    fun _ => isDecimalDigit_of_mem_digitList
  have some_digit : digitList d.digits ≠ [] := Nat.toDigits_ne_nil
  have zeros : ∀ n, ∀ c ∈ List.replicate n '0', Text.isDecimalDigit c := fun n c mem => by
    rw [List.eq_of_mem_replicate mem]
    rfl
  unfold Decimal.positional
  dsimp only
  split_ifs with whole short
  · exact ⟨_, [], (List.append_nil _).symm, List.append_ne_nil_of_left_ne_nil some_digit _,
      List.forall_mem_append.2 ⟨digits, zeros _⟩, fun c mem => absurd mem List.not_mem_nil⟩
  · have some_left : (digitList d.digits).drop
        ((digitList d.digits).length - (-d.exponent).toNat) ≠ [] := by
      rw [← List.length_pos_iff, List.length_drop]
      omega
    refine ⟨_, _, by rw [point_of_ne_nil some_left], ?_,
      fun c mem => digits c (List.mem_of_mem_take mem),
      fun c mem => digits c (List.mem_of_mem_drop mem)⟩
    rw [← List.length_pos_iff, List.length_take]
    omega
  · have some_left := List.append_ne_nil_of_right_ne_nil
      (List.replicate ((-d.exponent).toNat - (digitList d.digits).length) '0') some_digit
    exact ⟨['0'], _, by rw [point_of_ne_nil some_left]; rfl, List.cons_ne_nil _ _, zeros 1,
      List.forall_mem_append.2 ⟨zeros _, digits⟩⟩

/-- The text of a double without a sign is digits and a fraction. -/
theorem Unsigned.written {x : Float} (h : Unsigned x) :
    ∃ whole fraction, Written (Number.positional x).toList whole fraction := by
  obtain ⟨mantissa, exponent, finite⟩ := h
  unfold positional Number.written
  rw [finite]
  dsimp only
  rw [if_neg Bool.false_ne_true, String.toList_ofList]
  exact written_positional _

/-- The double that digits and a fraction are read as. -/
def ofDigits (whole fraction : List Char) : Float :=
  ofDecimal (digitsValue (whole ++ fraction)) (-fraction.length)

theorem stops_point {fraction : List Char} :
    Text.Stops Text.isDecimalDigit (point fraction) := by
  unfold point
  split_ifs
  · exact fun c mem => by simp at mem
  · exact fun c mem => by
      obtain rfl := Option.some.inj mem
      rfl

theorem readUnsigned?_written {text whole fraction : List Char} (h : Written text whole fraction) :
    readUnsigned? text = some (ofDigits whole fraction) := by
  have stops : Text.Stops Text.isDecimalDigit [] := fun c mem => by simp at mem
  unfold readUnsigned?
  simp only [List.span_eq_takeWhile_dropWhile]
  rw [h.eq, Text.takeWhile_front h.whole stops_point, Text.dropWhile_front h.whole stops_point]
  have some_digit : whole.isEmpty = false := by simpa using h.some
  unfold point
  cases fraction with
  | nil =>
    simp only [List.isEmpty_nil, if_true, some_digit, Bool.false_and]
    simp [readPower?, ofDigits]
  | cons c fraction =>
    have digits := Text.takeWhile_front h.fraction stops
    have none_left := Text.dropWhile_front h.fraction stops
    rw [List.append_nil] at digits none_left
    simp only [List.isEmpty_cons, Bool.false_eq_true, if_false, some_digit, Bool.false_and, digits,
      none_left]
    simp [readPower?, ofDigits]

/-- A text of digits and a fraction is read as their value. -/
theorem read?_written {s : String} {whole fraction : List Char}
    (h : Written s.toList whole fraction) : read? s = some (ofDigits whole fraction) := by
  obtain ⟨c, digits, cons⟩ := List.exists_cons_of_ne_nil h.some
  have text : s.toList = c :: (digits ++ point fraction) := by rw [h.eq, cons, List.cons_append]
  have digit : Text.isDecimalDigit c := h.whole c (by rw [cons]; exact List.mem_cons_self ..)
  have unsigned : readSign s.toList = (false, s.toList) := by
    rw [text]
    unfold readSign
    split
    · next eq =>
      cases eq
      cases digit
    · next eq =>
      cases eq
      cases digit
    · rfl
  have no_word : readWord? s.toList = none := by
    have start : c.toLower ≠ 'i' ∧ c.toLower ≠ 'n' := Text.toLower_of_isDecimalDigit digit
    unfold readWord?
    rw [text, List.map_cons]
    simp [start]
  unfold read?
  rw [unsigned]
  dsimp only
  rw [no_word, readUnsigned?_written h]
  rfl

end Number

/-! ## Lexemes -/

namespace Token.Lexeme

open Text (Stops)

variable {c : Char} {front rest : List Char}

theorem isDecimalDigit_of_startsName (h : startsName c) : Text.isDecimalDigit c = false := by
  rw [Bool.eq_false_iff]
  intro digit
  rw [startsName, Text.isLetter_of_isDecimalDigit digit, Bool.false_or, beq_iff_eq] at h
  subst h
  cases digit

theorem isBlank_of_startsName (h : startsName c) : Text.isBlank c = false := by
  rw [Bool.eq_false_iff]
  intro blank
  rw [startsName, Text.isLetter_of_isBlank blank, Bool.false_or, beq_iff_eq] at h
  subst h
  cases blank

theorem inName_of_startsName (h : startsName c) : inName c := by
  rw [startsName, Bool.or_eq_true] at h
  rw [inName, Bool.or_eq_true, Bool.or_eq_true]
  exact h.imp_left Or.inl

/-- Characters that spell a name or a word. -/
def Spelt : List Char → Prop
  | [] => False
  | c :: rest => startsName c ∧ ∀ c ∈ rest, inName c

-- by the characters of the list: there are finitely many characters, so all of them could be tried
instance : DecidablePred Spelt
  | [] => .isFalse id
  | _ :: _ => decidable_of_iff _ (and_congr_right' List.all_eq_true)

theorem Spelt.exists_cons {cs : List Char} (h : Spelt cs) :
    ∃ c rest, cs = c :: rest ∧ startsName c := by
  cases cs with
  | nil => exact h.elim
  | cons c rest => exact ⟨c, rest, rfl, h.1⟩

/-- A name that is no word of the language. -/
def IsName (s : String) : Prop := Spelt s.toList ∧ Mark.ofWord? s = none

instance : DecidablePred IsName := fun _ => inferInstanceAs (Decidable (_ ∧ _))

/-- The lexeme of a name or a word that ends where no name goes on. -/
theorem ofCons_spelt (spelt : Spelt (c :: front)) (stops : Stops inName rest) :
    ofCons c (front ++ rest) = name (c :: front) := by
  obtain ⟨starts, goes⟩ := spelt
  have no_number : (Text.isDecimalDigit c || (c == '.' && digitAhead (front ++ rest))) = false := by
    have no_point : c ≠ '.' := by
      rintro rfl
      rw [startsName, Text.isLetter_of_ascii (by decide)] at starts
      cases starts
    rw [isDecimalDigit_of_startsName starts]
    simp [no_point]
  have all : ∀ a ∈ c :: front, inName a :=
    List.forall_mem_cons.2 ⟨inName_of_startsName starts, goes⟩
  have alone : Stops inName [] := fun c mem => by simp at mem
  unfold ofCons
  rw [if_neg (by simp [no_number]), if_pos starts]
  unfold name
  rw [← List.cons_append, Text.takeWhile_front all stops]
  conv_rhs => rw [← List.append_nil (c :: front), Text.takeWhile_front all alone]

/-- The lexeme of a name or a word by itself. -/
theorem name_of_spelt {s : String} (spelt : Spelt s.toList) :
    name s.toList =
      plain (match Mark.ofWord? s with | some m => .mark m | none => .name s) s.toList := by
  have alone : Stops inName [] := fun c mem => by simp at mem
  cases text : s.toList with
  | nil =>
    rw [text] at spelt
    exact spelt.elim
  | cons c front =>
    rw [text] at spelt
    have all : ∀ a ∈ c :: front, inName a :=
      List.forall_mem_cons.2 ⟨inName_of_startsName spelt.1, spelt.2⟩
    have letters := Text.takeWhile_front all alone
    rw [List.append_nil] at letters
    unfold name
    rw [letters, ← text]
    exact congrArg (fun text => plain
      (match Mark.ofWord? text with | some m => .mark m | none => .name text) s.toList)
      String.ofList_toList

/-- No number goes on at the front: neither a digit nor a point with a digit behind it. -/
def EndsNumber (rest : List Char) : Prop :=
  Stops Text.isDecimalDigit rest ∧ fractionDigits rest = []

/-- The lexeme of a number that ends where no number goes on. -/
theorem ofCons_number {whole fraction : List Char}
    (written : Number.Written (c :: front) whole fraction) (ends : EndsNumber rest) :
    ofCons c (front ++ rest) =
      plain (.number (Number.ofDigits whole fraction)) (c :: front) := by
  obtain ⟨d, digits, cons⟩ := List.exists_cons_of_ne_nil written.some
  have first : c = d := by
    have eq := written.eq
    rw [cons, List.cons_append] at eq
    exact (List.cons.inj eq).1
  have digit : Text.isDecimalDigit c :=
    first ▸ written.whole d (by rw [cons]; exact List.mem_cons_self ..)
  unfold ofCons
  rw [if_pos (by rw [digit, Bool.true_or])]
  unfold number
  rw [← List.cons_append, written.eq, List.append_assoc]
  have behind : Stops Text.isDecimalDigit (Number.point fraction ++ rest) ∧
      fractionDigits (Number.point fraction ++ rest) = fraction := by
    unfold Number.point
    cases fraction with
    | nil => exact ends
    | cons a fraction =>
      refine ⟨fun c mem => ?_, Text.takeWhile_front written.fraction ends.1⟩
      obtain rfl := Option.some.inj mem
      rfl
  rw [Text.takeWhile_front written.whole behind.1, Text.dropWhile_front written.whole behind.1]
  dsimp only
  rw [behind.2]
  rfl

/-- Characters that a string may hold as they are. -/
def IsVerbatim (c : Char) : Prop := c ≠ '"' ∧ c ≠ '\\' ∧ c ≠ '\n'

instance : DecidablePred IsVerbatim := fun _ => inferInstanceAs (Decidable (_ ∧ _))

theorem bodyFrom_verbatim {value : List Char} (h : ∀ c ∈ value, IsVerbatim c) (before : List Char)
    (length : Nat) :
    bodyFrom '"' before length (value ++ '"' :: rest) =
      ⟨before.reverse ++ value, true, length + value.length + 1⟩ := by
  induction value generalizing before length with
  | nil => simp [bodyFrom]
  | cons c value ih =>
    obtain ⟨⟨no_quote, no_escape, no_end⟩, h⟩ := List.forall_mem_cons.1 h
    rw [List.cons_append, bodyFrom]
    · rw [if_neg (by simp [no_quote]), if_neg (by simp [no_end]), ih h]
      simp only [List.reverse_cons, List.append_assoc, List.cons_append, List.nil_append,
        List.length_cons, Nat.add_assoc, Nat.add_comm 1]
    · simp [no_escape]
    · simp [no_escape]

/-- The lexeme of a string. -/
theorem ofCons_string {value : List Char} (h : ∀ c ∈ value, IsVerbatim c) :
    ofCons '"' (value ++ '"' :: rest) =
      ⟨.string (String.ofList value), String.ofList ('"' :: value ++ ['"']), value.length + 2⟩ := by
  have no_name : startsName '"' = false := by
    rw [startsName, Text.isLetter_of_ascii (by decide)]
    rfl
  have no_number : (Text.isDecimalDigit '"' ||
      ('"' == '.' && digitAhead (value ++ '"' :: rest))) = false := rfl
  unfold ofCons
  rw [if_neg (Bool.eq_false_iff.1 no_number), if_neg (by simp [no_name]), if_pos (by decide)]
  unfold string
  rw [bodyFrom_verbatim h]
  simp

/-- The characters that operators and delimiters start with. -/
def symbols : List Char := Mark.singles.map Prod.fst

/-- The lexeme of an operator or a delimiter. -/
theorem ofCons_symbol (mem : c ∈ symbols) (point : c = '.' → digitAhead rest = false) :
    ofCons c rest = symbol c rest := by
  have apart : ∀ c ∈ symbols, Text.isDecimalDigit c = false ∧ c ≠ '_' ∧ c ≠ '"' ∧ c ≠ '\'' ∧
      (c.toNat ≤ 0x40 ∨ 0x5b ≤ c.toNat ∧ c.toNat ≤ 0x60 ∨ 0x7b ≤ c.toNat ∧ c.toNat ≤ 0xa9) :=
    List.all_iff_forall_prop.1 (by decide)
  obtain ⟨no_digit, no_underscore, no_quote, no_quote', code⟩ := apart c mem
  have no_name : startsName c = false := by
    rw [startsName, Text.isLetter_of_ascii code]
    simpa using no_underscore
  have no_number : (Text.isDecimalDigit c || (c == '.' && digitAhead rest)) = false := by
    by_cases h : c = '.'
    · rw [point h, no_digit, Bool.and_false, Bool.or_false]
    · simp [no_digit, h]
  unfold ofCons
  rw [if_neg (by simp [no_number]), if_neg (by simp [no_name]),
    if_neg (by simp [no_quote, no_quote'])]

end Token.Lexeme

end SheetScript
