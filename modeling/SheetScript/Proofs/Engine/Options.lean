import Mathlib.Data.List.TakeDrop
import Mathlib.Data.List.TakeWhile
import SheetScript.Engine.Config
import SheetScript.Proofs.Record.Ids

/-!
# What the options of a text are

Options are read line by line into one record, which each line may change. What comes out can be
told without the order of the changes: every option is what the last line that names it says.

* `Config.Spells` says which digits are a number of an option; `Config.natural?_eq_some_iff` is what
  `natural?` reads, and `Config.natural?_integerText` that it reads a number as it is shown.
* `Config.IsMalformed` and `Config.Names` say what a line is, `Config.LastNames` is about the last
  line that names an option, and `Config.Settles` about what the option is then.
* `Config.ReadFrom` says so of all the options. A line keeps it: `ReadFrom.set`, `ReadFrom.pass`.
* `Config.parse_eq` is what a text gives: a failure at the first malformed line, or these options.
-/

namespace SheetScript

namespace Config

variable {α : Type} {c : Config} {lines : List String} {line key value text : String}

/-! ## Numbers -/

/-- Decimal digits, at least one, for a number that 64 bits hold. -/
def Spells (digits : List Char) (n : Nat) : Prop :=
  (digits ≠ [] ∧ ∀ c ∈ digits, Text.isDecimalDigit c) ∧ Number.digitsValue digits = n ∧ n < 2 ^ 64

/-- A number of an option is digits, or digits behind a plus. -/
theorem natural?_eq_some_iff {n : Nat} : natural? text = some n ↔
    ∃ digits, (text.toList = digits ∨ text.toList = '+' :: digits) ∧ Spells digits n := by
  have unsigned (digits : List Char) :
      (if digits.isEmpty || !digits.all Text.isDecimalDigit then none
        else if Number.digitsValue digits < Nat.pow 2 64 then some (Number.digitsValue digits)
        else none) = some n ↔ Spells digits n := by
    have spelled : ¬(digits.isEmpty || !digits.all Text.isDecimalDigit) = true ↔
        digits ≠ [] ∧ ∀ c ∈ digits, Text.isDecimalDigit c := by simp
    rw [Option.ite_none_left_eq_some, Option.ite_none_right_eq_some, Option.some.injEq, spelled,
      Spells]
    refine and_congr_right fun _ => ⟨fun ⟨small, eq⟩ => ⟨eq, eq ▸ small⟩, fun ⟨eq, small⟩ => ?_⟩
    exact ⟨eq.symm ▸ small, eq⟩
  unfold natural?
  dsimp only
  rw [unsigned]
  split
  next rest signed =>
    rw [signed]
    refine ⟨fun h => ⟨rest, .inr rfl, h⟩, ?_⟩
    rintro ⟨_, rfl | parts, spells⟩
    · -- a plus is no digit
      cases spells.1.2 '+' List.mem_cons_self
    · exact (List.cons.inj parts).2 ▸ spells
  next plain =>
    refine ⟨fun h => ⟨_, .inl rfl, h⟩, ?_⟩
    rintro ⟨_, rfl | parts, spells⟩
    · exact spells
    · exact absurd parts (plain _)

/-- A number that is shown reads as itself. -/
theorem natural?_integerText {n : Nat} (small : n < 2 ^ 64) :
    natural? (Number.integerText n) = some n := by
  refine natural?_eq_some_iff.2 ⟨Nat.toDigits 10 n, .inl ?_, ⟨?_, fun c mem => ?_⟩, ?_, small⟩
  · exact Number.toList_integerText_natCast n
  · exact Nat.toDigits_ne_nil
  · exact Nat.isDigit_of_mem_toDigits (by decide) (by decide) mem
  · exact Nat.ofDigitChars_ten_toDigits

/-! ## Lines -/

/-- A line without the blanks around it. -/
def bare (line : String) : List Char := Text.trim line.toList

/-- A line that is not blank, is no comment and has no `=`. -/
def IsMalformed (line : String) : Prop :=
  bare line ≠ [] ∧ (bare line).head? ≠ some '#' ∧ '=' ∉ bare line

instance (line : String) : Decidable (IsMalformed line) :=
  inferInstanceAs (Decidable (bare line ≠ [] ∧ (bare line).head? ≠ some '#' ∧ '=' ∉ bare line))

/-- A line that is no comment names an option before its first `=`, in small letters or capitals,
and gives its value behind it; blanks around the two do not count. The capitals are those of ASCII:
no other character has a letter of an option as its small form. -/
def Names (line key value : String) : Prop :=
  (bare line).head? ≠ some '#' ∧ ∃ before after, bare line = before ++ '=' :: after ∧
    '=' ∉ before ∧ key = String.ofList ((Text.trim before).map Char.toLower) ∧
      value = String.ofList (Text.trim after)

/-- The last line that names an option gives it this value. -/
def LastNames (lines : List String) (key value : String) : Prop :=
  ∃ front line back, lines = front ++ line :: back ∧ Names line key value ∧
    ∀ later ∈ back, ∀ text, ¬Names later key text

/-- An option is what the last line that names it gives. It is its default if that is no value of
it, and if no line names it. -/
def Settles (lines : List String) (key : String) (read : String → Option α) (default value : α) :
    Prop :=
  (∃ text, LastNames lines key text ∧ value = (read text).getD default) ∨
    ((∀ line ∈ lines, ∀ text, ¬Names line key text) ∧ value = default)

/-- The options are those that some lines give. -/
structure ReadFrom (lines : List String) (c : Config) : Prop where
  maxCallDepth : Settles lines "maxcalldepth" natural? 128 c.maxCallDepth
  maxLoopIterations : Settles lines "maxloopiterations" natural? 1000000 c.maxLoopIterations
  cacheCapacity : Settles lines "astcachecapacity" natural? 512 c.cacheCapacity
  maxCascadeRuns : Settles lines "maxcascadepasses" natural? 256 c.maxCascadeRuns
  logLevel : Settles lines "loglevel" some "info" c.logLevel
  consoleLog : Settles lines "consolelog" flag? true c.consoleLog

/-! ## Reading a line -/

/-- A text is cut at its first `=`. -/
theorem span_eq {before : List Char} (free : '=' ∉ before) (after : List Char) :
    (before ++ '=' :: after).span (· != '=') = (before, '=' :: after) := by
  have all : ∀ c ∈ before, (c != '=') = true := fun c mem => bne_iff_ne.2 fun eq => free (eq ▸ mem)
  rw [List.span_eq_takeWhile_dropWhile, List.takeWhile_append_of_pos all,
    List.dropWhile_append_of_pos all, List.takeWhile_cons_of_neg (by decide),
    List.dropWhile_cons_of_neg (by decide), List.append_nil]

/-- A text without `=` is not cut. -/
theorem span_eq_self {cs : List Char} (free : '=' ∉ cs) : cs.span (· != '=') = (cs, []) := by
  have all : ∀ c ∈ cs, (c != '=') = true := fun c mem => bne_iff_ne.2 fun eq => free (eq ▸ mem)
  rw [List.span_eq_takeWhile_dropWhile, List.takeWhile_eq_self_iff.2 all,
    List.dropWhile_eq_nil_iff.2 all]

theorem ofString_idle (idle : bare line = [] ∨ (bare line).head? = some '#') :
    Line.ofString line = .idle :=
  if_pos (by simpa [bare] using idle)

theorem ofString_of_code (content : bare line ≠ []) (code : (bare line).head? ≠ some '#') :
    Line.ofString line =
      let (before, rest) := (bare line).span (· != '=')
      if rest.isEmpty then .other (Text.trimmed line)
      else .entry (String.ofList ((Text.trim before).map Char.toLower))
        (String.ofList (Text.trim (rest.drop 1))) :=
  if_neg (by simpa [bare] using And.intro content code)

theorem ofString_of_isMalformed (bad : IsMalformed line) :
    Line.ofString line = .other (Text.trimmed line) := by
  obtain ⟨content, code, free⟩ := bad
  rw [ofString_of_code content code, span_eq_self free]
  rfl

theorem ofString_of_names (h : Names line key value) : Line.ofString line = .entry key value := by
  obtain ⟨code, before, after, parts, free, rfl, rfl⟩ := h
  have content : bare line ≠ [] := by simp [parts]
  rw [ofString_of_code content code, parts, span_eq free]
  rfl

/-- A line is idle, names an option or is malformed. -/
theorem line_cases (line : String) :
    Line.ofString line = .idle ∧ ¬IsMalformed line ∨
      (∃ key value, Names line key value) ∨ IsMalformed line := by
  by_cases idle : bare line = [] ∨ (bare line).head? = some '#'
  · exact .inl ⟨ofString_idle idle, fun bad => idle.elim bad.1 bad.2.1⟩
  · obtain ⟨content, code⟩ := not_or.1 idle
    by_cases cut : '=' ∈ bare line
    · obtain ⟨before, after, parts, free⟩ := List.eq_append_cons_of_mem cut
      exact .inr (.inl ⟨_, _, code, before, after, parts, free, rfl, rfl⟩)
    · exact .inr (.inr ⟨content, code, cut⟩)

/-- A line names one option at most, with one value. -/
theorem Names.eq (h : Names line key value) {other text : String} (h' : Names line other text) :
    other = key ∧ text = value :=
  Line.entry.inj ((ofString_of_names h').symm.trans (ofString_of_names h))

/-! ## One line more -/

/-- A line that names the option sets it, and the others stay. -/
theorem set_eq (c : Config) (key text : String) : c.set key text =
    { maxCallDepth :=
        if key = "maxcalldepth" then (natural? text).getD 128 else c.maxCallDepth
      maxLoopIterations :=
        if key = "maxloopiterations" then (natural? text).getD 1000000 else c.maxLoopIterations
      cacheCapacity :=
        if key = "astcachecapacity" then (natural? text).getD 512 else c.cacheCapacity
      maxCascadeRuns :=
        if key = "maxcascadepasses" then (natural? text).getD 256 else c.maxCascadeRuns
      logLevel := if key = "loglevel" then text else c.logLevel
      consoleLog := if key = "consolelog" then (flag? text).getD true else c.consoleLog } := by
  simp only [set, beq_iff_eq]
  split_ifs <;> simp_all

namespace Settles

variable {read : String → Option α} {default old : α}

theorem pass (h : Settles lines key read default old) (unnamed : ∀ text, ¬Names line key text) :
    Settles (lines ++ [line]) key read default old := by
  rcases h with ⟨text, ⟨front, last, back, parts, names, later⟩, eq⟩ | ⟨never, eq⟩
  · refine .inl ⟨text, ⟨front, last, back ++ [line], ?_, names, ?_⟩, eq⟩
    · rw [parts, List.append_assoc, List.cons_append]
    · exact List.forall_mem_append.2 ⟨later, List.forall_mem_singleton.2 unnamed⟩
  · exact .inr ⟨List.forall_mem_append.2 ⟨never, List.forall_mem_singleton.2 unnamed⟩, eq⟩

theorem set (h : Settles lines key read default old) {other : String}
    (names : Names line other text) : Settles (lines ++ [line]) key read default
      (if other = key then (read text).getD default else old) := by
  split_ifs with same
  · subst same
    exact .inl ⟨text, ⟨lines, line, [], rfl, names, List.forall_mem_nil _⟩, rfl⟩
  · exact h.pass fun _ here => same (here.eq names).1

end Settles

namespace ReadFrom

theorem start : ReadFrom [] {} := by
  have default {α : Type} (key : String) (read : String → Option α) (d : α) :
      Settles [] key read d d := .inr ⟨List.forall_mem_nil _, rfl⟩
  exact ⟨default .., default .., default .., default .., default .., default ..⟩

/-- A line that names nothing changes nothing. -/
theorem pass (h : ReadFrom lines c) (unnamed : ∀ key text, ¬Names line key text) :
    ReadFrom (lines ++ [line]) c where
  maxCallDepth := h.maxCallDepth.pass (unnamed _)
  maxLoopIterations := h.maxLoopIterations.pass (unnamed _)
  cacheCapacity := h.cacheCapacity.pass (unnamed _)
  maxCascadeRuns := h.maxCascadeRuns.pass (unnamed _)
  logLevel := h.logLevel.pass (unnamed _)
  consoleLog := h.consoleLog.pass (unnamed _)

/-- A line that names an option sets it. -/
theorem set (h : ReadFrom lines c) (names : Names line key text) :
    ReadFrom (lines ++ [line]) (c.set key text) := by
  rw [set_eq]
  exact ⟨h.maxCallDepth.set names, h.maxLoopIterations.set names, h.cacheCapacity.set names,
    h.maxCascadeRuns.set names, h.logLevel.set names, h.consoleLog.set names⟩

end ReadFrom

/-! ## Many lines -/

/-- Lines of which none is malformed give the options that they settle. -/
theorem parseFrom_eq_ok (h : ReadFrom lines c) (number : Nat) {rest : List String}
    (fine : ∀ line ∈ rest, ¬IsMalformed line) :
    ∃ c', parseFrom c number rest = .ok c' ∧ ReadFrom (lines ++ rest) c' := by
  induction rest generalizing lines c number with
  | nil => exact ⟨c, rfl, by rwa [List.append_nil]⟩
  | cons line rest ih =>
    obtain ⟨here, later⟩ := List.forall_mem_cons.1 fine
    rw [parseFrom, List.append_cons]
    rcases line_cases line with ⟨idle, -⟩ | ⟨key, text, names⟩ | bad
    · rw [idle]
      refine ih (h.pass fun key text names => ?_) _ later
      nomatch idle.symm.trans (ofString_of_names names)
    · rw [ofString_of_names names]
      exact ih (h.set names) _ later
    · exact absurd bad here

/-- The first malformed line is reported, whatever the options are so far. -/
theorem parseFrom_eq_error (c : Config) (number : Nat) {front : List String}
    (fine : ∀ line ∈ front, ¬IsMalformed line) (bad : IsMalformed line) (back : List String) :
    parseFrom c number (front ++ line :: back) =
      .error (.notAnOption (number + front.length) (Text.trimmed line)) := by
  induction front generalizing c number with
  | nil => rw [List.nil_append, parseFrom, ofString_of_isMalformed bad]; rfl
  | cons first front ih =>
    obtain ⟨here, later⟩ := List.forall_mem_cons.1 fine
    have count : number + (first :: front).length = number + 1 + front.length := by
      rw [List.length_cons, Nat.add_right_comm, Nat.add_assoc]
    rw [List.cons_append, parseFrom, count]
    rcases line_cases first with ⟨idle, -⟩ | ⟨key, text, names⟩ | bad
    · rw [idle]
      exact ih c _ later
    · rw [ofString_of_names names]
      exact ih _ _ later
    · exact absurd bad here

/-- **The last line that names an option settles it.** A text with a malformed line fails at the
first of these, which is told by its number. Any other text gives every option what the last line
that names it says, and fails only if this allows no call. -/
theorem parse_eq (text : String) :
    (∀ front line back, Text.lines text = front ++ line :: back →
      (∀ line ∈ front, ¬IsMalformed line) → IsMalformed line →
        parse text = .error (.notAnOption (front.length + 1) (Text.trimmed line))) ∧
      ((∀ line ∈ Text.lines text, ¬IsMalformed line) → ∃ c, ReadFrom (Text.lines text) c ∧
        parse text = if c.maxCallDepth = 0 then .error .noCalls else .ok c) := by
  constructor
  · intro front line back parts fine bad
    rw [parse, parts, parseFrom_eq_error {} 1 fine bad back, Nat.add_comm]
    rfl
  · intro fine
    obtain ⟨c, run, reads⟩ := parseFrom_eq_ok .start 1 fine
    refine ⟨c, reads, ?_⟩
    rw [parse, run]
    change (if (c.maxCallDepth == 0) = true then _ else _) = _
    simp only [beq_iff_eq]
    rfl

/-- Two lines name the depth of calls, and the second gives it no value. -/
def repeated : String := "MaxCallDepth = 32\n\n# log\nloglevel = a=b\nmaxcalldepth = 64x"

/-- Two lines are malformed. -/
def broken : String := "# depth\nloglevel = a\n maxcalldepth 12\nconsolelog"

theorem parse_repeated_and_broken :
    (∃ c, ReadFrom (Text.lines repeated) c ∧
      parse repeated = if c.maxCallDepth = 0 then .error .noCalls else .ok c) ∧
    parse broken = .error (.notAnOption 3 "maxcalldepth 12") :=
  ⟨(parse_eq repeated).2 (by decide),
    (parse_eq broken).1 ["# depth", "loglevel = a"] " maxcalldepth 12" ["consolelog"]
      (by decide) (by decide) (by decide)⟩

end Config

end SheetScript
