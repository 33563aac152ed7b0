import SheetScript.Proofs.Token.Extent
import SheetScript.Proofs.Token.Gaps

/-!
# The steps of the lexer

What a step of the lexer can do, wherever it stands, and how its steps make a run.

* A step first measures the line that starts here (`Lexer.Measured`), and then it reads what is
  there (`Lexer.Read`). The cases of both say all that a step can do.
* `work_step`: a step does some of the work that is left, unless it reads the end of the input. So
  there are enough steps: `exists_runs`.
* `Lexer.Runs` are the steps up to the end of the input. `pull_of_runs`: whoever asks for one token
  after another gets those of the run, and then the end of the input again and again.
-/

namespace SheetScript

theorem Text.Cursor.rest_advance (count : Nat) (c : Cursor) :
    (c.advance count).rest = c.rest.drop count := by
  induction count generalizing c with
  | zero => rfl
  | succ count ih =>
    obtain ⟨rest, line, column⟩ := c
    rw [advance, ih]
    cases rest with
    | nil => exact List.drop_nil
    | cons c rest =>
      unfold step
      split
      · next eq => cases eq
      · next eq =>
        cases eq
        rfl
      · next eq =>
        cases eq
        rfl

namespace Token.Lexer

variable {l l' l'' m : Lexer} {t : Token} {r : Option Token} {ts : List Token}

/-! ## A line is measured -/

/-- The lexer behind the lines that hold nothing. -/
def atLine (l : Lexer) : Lexer :=
  { l.advance (idleLength 0 0 false l.cursor.rest) with atLineStart := false }

/-- The margin of the next line that holds something. -/
def margin (l : Lexer) : List Char := l.atLine.cursor.rest.takeWhile inMargin

/-- The lexer behind that margin. -/
def atText (l : Lexer) : Lexer := l.atLine.advance l.margin.length

theorem measureLine_eq (l : Lexer) : l.measureLine =
    if l.atText.cursor.rest.isEmpty then l.atText else l.atText.indentTo (l.margin.foldl widen 0) :=
  rfl

/-- What the margin of a line leads to: a level more, or some levels less and perhaps a fault. Only
a line that has a margin opens a level or is faulty. -/
inductive Indented (l : Lexer) (margin : List Char) : Lexer → Prop
  | deeper (width : Nat) (some : margin ≠ []) :
      Indented l margin { l with levels := width :: l.levels, pending := [l.layoutHere .indent] }
  | levels {count : Nat} {left : List Nat} {fault : List Token}
      (eq : left.length + count = l.levels.length)
      (h : fault = [] ∨
        margin ≠ [] ∧ fault = [l.tokenHere (.fault .inconsistentIndentation) ""]) :
      Indented l margin
        { l with levels := left, pending := List.replicate count (l.layoutHere .dedent) ++ fault }

theorem length_closeLevels (width : Nat) (levels : List Nat) :
    (closeLevels width levels).2.length + (closeLevels width levels).1 = levels.length := by
  fun_induction closeLevels width levels with
  | case1 => rfl
  | case2 level levels _ count left eq ih =>
    rw [eq] at ih
    rw [List.length_cons, ← ih, Nat.add_assoc]
  | case3 => rfl

/-- A line without a margin closes all levels. -/
theorem head?_closeLevels_zero (levels : List Nat) :
    (closeLevels 0 levels).2.head?.getD 0 = 0 := by
  induction levels with
  | nil => rfl
  | cons level levels ih =>
    rw [closeLevels]
    split
    · exact ih
    · next outer => exact Nat.eq_zero_of_not_pos outer

theorem indented (l : Lexer) (margin : List Char) :
    l.Indented margin (l.indentTo (margin.foldl widen 0)) := by
  unfold indentTo
  split
  · next deeper =>
    refine .deeper _ fun none => ?_
    rw [none] at deeper
    exact Nat.not_lt_zero _ deeper
  · refine .levels (length_closeLevels _ l.levels) ?_
    split
    · exact .inl rfl
    · next uneven =>
      refine .inr ⟨fun none => ?_, rfl⟩
      rw [none, List.foldl_nil, head?_closeLevels_zero] at uneven
      exact uneven rfl

/-- The lexer with the line measured that starts here, if one does. -/
def measured (l : Lexer) : Lexer :=
  if l.pending.isEmpty && l.atLineStart && l.brackets == 0 then l.measureLine else l

/-- What measuring can do: nothing where no line starts, go to the end of the source, or go to the
text of a line and open or close levels. -/
inductive Measured (l : Lexer) : Lexer → Prop
  | still (h : l.pending ≠ [] ∨ l.atLineStart = false ∨ l.brackets ≠ 0) : Measured l l
  | idle (none : l.pending = []) (start : l.atLineStart = true) (outside : l.brackets = 0)
      (ended : l.atText.cursor.rest = []) : Measured l l.atText
  | line {m : Lexer} (none : l.pending = []) (start : l.atLineStart = true)
      (outside : l.brackets = 0) (some : l.atText.cursor.rest ≠ [])
      (h : l.atText.Indented l.margin m) : Measured l m

theorem measured_measured (l : Lexer) : l.Measured l.measured := by
  unfold measured
  split
  · next starts =>
    simp only [Bool.and_eq_true, List.isEmpty_iff, beq_iff_eq] at starts
    obtain ⟨⟨none, start⟩, outside⟩ := starts
    rw [measureLine_eq]
    split
    · next ended => exact .idle none start outside (List.isEmpty_iff.1 ended)
    · next some =>
      exact .line none start outside (fun ended => some (List.isEmpty_iff.2 ended))
        (l.atText.indented l.margin)
  · next still =>
    refine .still ?_
    simpa only [Bool.and_eq_true, List.isEmpty_iff, beq_iff_eq, not_and_or, Bool.not_eq_true,
      or_assoc] using still

/-! ## A token is noted -/

@[simp] theorem note_cursor (l : Lexer) (kind : Kind) : (l.note kind).cursor = l.cursor := by
  cases kind with
  | mark m => cases m <;> rfl
  | _ => rfl

@[simp] theorem note_pending (l : Lexer) (kind : Kind) : (l.note kind).pending = l.pending := by
  cases kind with
  | mark m => cases m <;> rfl
  | _ => rfl

@[simp] theorem note_levels (l : Lexer) (kind : Kind) : (l.note kind).levels = l.levels := by
  cases kind with
  | mark m => cases m <;> rfl
  | _ => rfl

@[simp] theorem note_closed (l : Lexer) (kind : Kind) : (l.note kind).closed = l.closed := by
  cases kind with
  | mark m => cases m <;> rfl
  | _ => rfl

@[simp] theorem note_atLineStart (l : Lexer) (kind : Kind) :
    (l.note kind).atLineStart = l.atLineStart := by
  cases kind with
  | mark m => cases m <;> rfl
  | _ => rfl

/-- Whether a lexeme has been read since the last line end that is a token. -/
def begun (l : Lexer) : Bool := l.started && !l.lineEnded

theorem begun_note (l : Lexer) {kind : Kind} (no_layout : kind.isLayout = false) :
    (l.note kind).begun = true := by
  cases kind with
  | mark m => cases m <;> first | rfl | cases no_layout
  | _ => rfl

/-! ## A token is read -/

/-- The lexer past the gap before a lexeme. -/
def pastGap (l : Lexer) : Lexer :=
  l.advance (gapLength (l.brackets != 0) 0 false l.cursor.rest)

/-- What the end of the source gives: it closes the last line and the levels once, and then it
stays. -/
inductive Finished (l : Lexer) : Token → Lexer → Prop
  | again (closed : l.closed = true) : Finished l (l.layoutHere .endOfInput) l
  | line (first : l.closed = false) (begun : l.begun = true) :
      Finished l (l.layoutHere .newline)
        { l with
          closed := true
          pending := l.levels.map fun _ => l.layoutHere .dedent
          levels := []
          lineEnded := true }
  | level {level : Nat} {levels : List Nat} (first : l.closed = false) (idle : l.begun = false)
      (eq : l.levels = level :: levels) :
      Finished l (l.layoutHere .dedent)
        { l with
          closed := true
          pending := levels.map fun _ => l.layoutHere .dedent
          levels := [] }
  | last (first : l.closed = false) (idle : l.begun = false) (none : l.levels = []) :
      Finished l (l.layoutHere .endOfInput) { l with closed := true }

theorem finished (none : l.pending = []) : l.Finished l.finish.1 l.finish.2 := by
  obtain ⟨cursor, levels, brackets, atLineStart, pending, started, lineEnded, closed⟩ := l
  cases none
  cases closed with
  | true => exact .again rfl
  | false =>
    cases begun : started && !lineEnded with
    | true =>
      simp only [finish, begun]
      exact .line rfl begun
    | false =>
      simp only [finish, begun]
      cases levels with
      | nil => exact .last rfl begun rfl
      | cons level levels => exact .level rfl begun rfl

/-- What is read after measuring: a pending token, the end of a line that holds something or
nothing, a lexeme, or what the end of the source gives. -/
inductive Read (m : Lexer) : Option Token → Lexer → Prop
  | pending {t : Token} {rest : List Token} (h : m.pending = t :: rest) :
      Read m (some t) ({ m with pending := rest }.note t.kind)
  | passed {rest : List Char} (none : m.pending = []) (ahead : m.pastGap.cursor.rest = '\n' :: rest)
      (idle : m.begun = false) :
      Read m Option.none { m.pastGap.advance 1 with atLineStart := true }
  | newline {rest : List Char} (none : m.pending = [])
      (ahead : m.pastGap.cursor.rest = '\n' :: rest) (begun : m.begun = true) :
      Read m (some (m.pastGap.tokenHere (.mark .newline) "\\n"))
        { m.pastGap.advance 1 with atLineStart := true, lineEnded := true }
  | lexeme {c : Char} {rest span : List Char} (none : m.pending = [])
      (ahead : m.pastGap.cursor.rest = c :: rest)
      (spans : (Lexeme.ofCons c rest).Spans (c :: rest) span) :
      Read m (some (m.pastGap.tokenHere (Lexeme.ofCons c rest).kind (Lexeme.ofCons c rest).text))
        ((m.pastGap.advance span.length).note (Lexeme.ofCons c rest).kind)
  | finish {t : Token} {last : Lexer} (none : m.pending = []) (ended : m.pastGap.cursor.rest = [])
      (h : m.pastGap.Finished t last) : Read m (some t) last

theorem step_eq (l : Lexer) : l.step =
    match l.measured.takePending with
    | some (t, m) => (some t, m)
    | none => l.measured.pastGap.stepHere := by
  unfold step
  change (match l.measured.takePending with | some (t, m) => _ | none => _) = _
  cases l.measured.takePending with
  | some r => rfl
  | none => rfl

/-- **What a step can do**: measure a line, and then read. -/
theorem read_step (l : Lexer) : l.measured.Read l.step.1 l.step.2 := by
  rw [step_eq]
  generalize l.measured = m
  cases pending : m.pending with
  | cons t rest =>
    rw [takePending, pending]
    exact .pending pending
  | nil =>
    rw [takePending, pending]
    dsimp only
    unfold stepHere
    split
    · next ended => exact .finish pending ended (finished pending)
    · next ahead =>
      have begun : (!m.pastGap.started || m.pastGap.lineEnded) = !m.begun := by
        rw [begun, Bool.not_and, Bool.not_not]
        rfl
      dsimp only
      rw [begun]
      cases begun : m.begun with
      | true => exact .newline pending ahead begun
      | false => exact .passed pending ahead begun
    · next c rest no_end ahead =>
      obtain ⟨span, spans⟩ := Lexeme.exists_span c rest
      dsimp only
      rw [spans.length_eq]
      exact .lexeme pending ahead spans

/-! ## What a step leaves to do -/

/-- The work that is left: two steps for each character, one for each level and for each pending
token, and two for the end. -/
def work (l : Lexer) : Nat :=
  2 * l.cursor.rest.length + l.pending.length + l.levels.length + if l.closed then 0 else 2

theorem rest_advance (l : Lexer) (count : Nat) :
    (l.advance count).cursor.rest = l.cursor.rest.drop count :=
  Text.Cursor.rest_advance count l.cursor

/-- A margin takes its characters. -/
theorem length_atText (l : Lexer) :
    l.atText.cursor.rest.length + l.margin.length ≤ l.cursor.rest.length := by
  have margin : l.margin.length ≤ l.atLine.cursor.rest.length :=
    (List.takeWhile_prefix _).length_le
  have line : l.atLine.cursor.rest.length ≤ l.cursor.rest.length := by
    rw [show l.atLine.cursor.rest = _ from rest_advance l _, List.length_drop]
    exact Nat.sub_le _ _
  rw [atText, rest_advance, List.length_drop]
  omega

/-- Measuring a line makes no work: a level more takes a character of the margin, and so does a
fault. -/
theorem Measured.work_le (h : l.Measured m) : m.work ≤ l.work := by
  have text := length_atText l
  cases h with
  | still => exact Nat.le_refl _
  | idle none =>
    have same : l.atText.pending = l.pending ∧ l.atText.levels = l.levels ∧
        l.atText.closed = l.closed := ⟨rfl, rfl, rfl⟩
    simp only [work, same]
    omega
  | line none _ _ _ h =>
    have same : l.atText.pending = l.pending ∧ l.atText.levels = l.levels ∧
        l.atText.closed = l.closed := ⟨rfl, rfl, rfl⟩
    cases h with
    | deeper width some =>
      have margin := List.length_pos_iff.2 some
      simp only [work, same, none, List.length_cons, List.length_nil]
      omega
    | @levels count left fault eq h =>
      have faults : fault.length ≤ l.margin.length := by
        obtain rfl | ⟨some, rfl⟩ := h
        · exact Nat.zero_le _
        · exact List.length_pos_iff.2 some
      simp only [work, same, none, List.length_append, List.length_replicate, List.length_nil]
      rw [same.2.1] at eq
      omega

/-- A gap is no work. -/
theorem length_pastGap (l : Lexer) : l.pastGap.cursor.rest.length ≤ l.cursor.rest.length := by
  rw [pastGap, rest_advance, List.length_drop]
  exact Nat.sub_le _ _

/-- Whatever is read is work done, the end of the input apart. -/
theorem Read.work_lt (h : m.Read r l) (inner : ∀ t ∈ r, t.kind ≠ .mark .endOfInput) :
    l.work < m.work := by
  have gap := length_pastGap m
  -- the characters of a lexeme or of a line end are work that has been done
  have taken : ∀ {count c rest}, 0 < count → m.pastGap.cursor.rest = c :: rest →
      (m.pastGap.advance count).cursor.rest.length < m.cursor.rest.length := by
    intro count c rest some ahead
    rw [ahead, List.length_cons] at gap
    rw [rest_advance, List.length_drop, ahead, List.length_cons]
    omega
  have same : ∀ count, (m.pastGap.advance count).pending = m.pending ∧
      (m.pastGap.advance count).levels = m.levels ∧
      (m.pastGap.advance count).closed = m.closed := fun _ => ⟨rfl, rfl, rfl⟩
  cases h with
  | pending pending =>
    simp only [work, note_cursor, note_pending, note_levels, note_closed, pending, List.length_cons]
    omega
  | passed none ahead | newline none ahead =>
    have fewer := taken Nat.one_pos ahead
    simp only [work, same]
    omega
  | lexeme none ahead spans =>
    have fewer := taken (List.length_pos_iff.2 spans.some) ahead
    simp only [work, note_cursor, note_pending, note_levels, note_closed, same]
    omega
  | finish none ended h =>
    have same := same 0
    cases h with
    | again | last => exact absurd rfl (inner _ rfl)
    | line first =>
      have first : m.closed = false := first
      have levels : m.pastGap.levels = m.levels := rfl
      simp only [work, first, none, levels, List.length_map, List.length_nil, if_pos,
        Bool.false_eq_true, if_false]
      omega
    | level first _ eq =>
      have first : m.closed = false := first
      have levels : m.levels = _ := eq
      simp only [work, first, none, levels, List.length_map, List.length_nil, List.length_cons,
        if_pos, Bool.false_eq_true, if_false]
      omega

/-- A step does some of the work that is left, unless it reads the end of the input. -/
theorem work_step (l : Lexer) (inner : ∀ t ∈ l.step.1, t.kind ≠ .mark .endOfInput) :
    l.step.2.work < l.work :=
  Nat.lt_of_lt_of_le ((read_step l).work_lt inner) (measured_measured l).work_le

theorem Measured.length_le (h : l.Measured m) :
    m.cursor.rest.length ≤ l.cursor.rest.length := by
  have text := length_atText l
  cases h with
  | still => exact Nat.le_refl _
  | idle => omega
  | line _ _ _ _ h => cases h <;> exact Nat.le_trans (Nat.le_add_right _ _) text

/-- A step that reads no token passes a line end. -/
theorem length_of_silent (h : l.step = (none, l')) :
    l'.cursor.rest.length < l.cursor.rest.length := by
  have read := read_step l
  rw [h] at read
  refine Nat.lt_of_lt_of_le ?_ (measured_measured l).length_le
  generalize l.measured = m at read
  have gap := length_pastGap m
  cases read with
  | passed _ ahead =>
    rw [ahead, List.length_cons] at gap
    change (m.pastGap.advance 1).cursor.rest.length < _
    rwa [rest_advance, ahead]

/-! ## Runs -/

/-- The lexer reads these tokens, none of them the end of the input, on its way to another place. -/
inductive Runs : Lexer → List Token → Lexer → Prop
  | nil (l : Lexer) : Runs l [] l
  | silent {l l' m : Lexer} {ts : List Token} (step : l.step = (none, l')) (rest : Runs l' ts m) :
      Runs l ts m
  | token {l l' m : Lexer} {t : Token} {ts : List Token} (step : l.step = (some t, l'))
      (inner : t.kind ≠ .mark .endOfInput) (rest : Runs l' ts m) : Runs l (t :: ts) m

/-- With steps enough for the work, the lexer comes to the end of the input. -/
theorem exists_runs (room : Nat) (before : List Token) (l : Lexer) (enough : l.work < room) :
    ∃ ts last m m', l.Runs ts m ∧ m.step = (some last, m') ∧ last.kind = .mark .endOfInput ∧
      runWithin room before l = (before.reverse ++ ts ++ [last], m') := by
  induction room generalizing before l with
  | zero => exact absurd enough (Nat.not_lt_zero _)
  | succ room ih =>
    have done := work_step l
    have left : l.step.2.work < l.work → l.step.2.work < room := fun less => by omega
    unfold runWithin
    cases step : l.step with
    | mk r l' =>
      rw [step] at done left
      cases r with
      | none =>
        obtain ⟨ts, last, m, m', runs, ends, kind, run⟩ := ih before l' (left (done (by simp)))
        exact ⟨ts, last, m, m', .silent step runs, ends, kind, run⟩
      | some t =>
        dsimp only
        split
        · next ended =>
          exact ⟨[], t, l, l', .nil l, step, Kind.isMark_iff.1 ended, by simp⟩
        · next going =>
          have inner : t.kind ≠ .mark .endOfInput := fun ended => going (Kind.isMark_iff.2 ended)
          have done := done fun t' same => Option.some.inj same ▸ inner
          obtain ⟨ts, last, m, m', runs, ends, kind, run⟩ := ih (t :: before) l' (left done)
          exact ⟨t :: ts, last, m, m', .token step inner runs, ends, kind, by simp [run]⟩

/-- The tokens of a source are those of a run and the end of the input. -/
theorem exists_run (source : String) :
    ∃ ts last m m', (ofList source.toList).Runs ts m ∧ m.step = (some last, m') ∧
      last.kind = .mark .endOfInput ∧ tokenize source = ts ++ [last] := by
  have enough : (ofList source.toList).work < stepBound source.toList := by
    change 2 * source.toList.length + 0 + 0 + 2 < 2 * source.toList.length + 4
    omega
  obtain ⟨ts, last, m, m', runs, ends, kind, run⟩ := exists_runs _ [] _ enough
  exact ⟨ts, last, m, m', runs, ends, kind, by rw [tokenize, Lexer.run, run]; rfl⟩

/-! ## One token after another -/

/-- As many tokens, asked for one after another. -/
def pull : Nat → Lexer → List Token
  | 0, _ => []
  | count + 1, l => l.next.1 :: pull count l.next.2

/-- The next token does not depend on the room, if there is enough. -/
theorem nextWithin_eq (room room' : Nat) (l : Lexer) (enough : l.cursor.rest.length < room)
    (enough' : l.cursor.rest.length < room') : nextWithin room l = nextWithin room' l := by
  induction room generalizing room' l with
  | zero => exact absurd enough (Nat.not_lt_zero _)
  | succ room ih =>
    cases room' with
    | zero => exact absurd enough' (Nat.not_lt_zero _)
    | succ room' =>
      rw [nextWithin, nextWithin]
      cases step : l.step with
      | mk r l' =>
        cases r with
        | none =>
          have less := length_of_silent step
          exact ih room' l' (by omega) (by omega)
        | some t => rfl

theorem next_of_silent (h : l.step = (none, l')) : l.next = l'.next := by
  have less := length_of_silent h
  rw [next, nextWithin, h]
  exact nextWithin_eq _ _ l' less (Nat.lt_succ_self _)

theorem next_of_token (h : l.step = (some t, l')) : l.next = (t, l') := by
  rw [next, nextWithin, h]

/-- Whoever asks for one token after another gets those of the run. -/
theorem pull_of_runs (h : l.Runs ts m) (count : Nat) :
    pull (ts.length + (count + 1)) l = ts ++ pull (count + 1) m := by
  induction h with
  | nil => rw [List.length_nil, Nat.zero_add, List.nil_append]
  | silent step _ ih =>
    rw [← ih, ← Nat.add_assoc, pull, pull, next_of_silent step]
  | token step _ _ ih =>
    rw [List.length_cons, Nat.add_right_comm, pull, next_of_token step, ih, List.cons_append]

/-- A closed lexer reads the end of the input and stays. -/
theorem step_of_closed (none : l.pending = []) (ended : l.cursor.rest = [])
    (closed : l.closed = true) (still : (l.atLineStart && l.brackets == 0) = false) :
    l.step = (some (l.layoutHere .endOfInput), l) := by
  have measured : l.measured = l := by
    rw [measured, Bool.and_assoc, still, Bool.and_false, if_neg Bool.false_ne_true]
  obtain ⟨⟨rest, line, column⟩, levels, brackets, atLineStart, pending, started, lineEnded, _⟩ := l
  cases none
  cases ended
  cases closed
  rw [step_eq, measured]
  rfl

/-- No line starts where a line has been measured. -/
theorem Measured.no_start (h : l.Measured m) (none : m.pending = []) :
    (m.atLineStart && m.brackets == 0) = false := by
  cases h with
  | still h =>
    rw [Bool.and_eq_false_iff, beq_eq_false_iff_ne]
    exact h.resolve_left fun some => some none
  | idle => rfl
  | line _ _ _ _ h => cases h <;> rfl

/-- Where the end of the input has been read, it is read again, and the lexer stays. -/
theorem step_of_endOfInput (h : l.step = (some t, l')) (ended : t.kind = .mark .endOfInput)
    (queue : ∀ t ∈ l.measured.pending, t.kind ≠ .mark .endOfInput) : l'.step = (some t, l') := by
  have read := read_step l
  have still := (measured_measured l).no_start
  rw [h] at read
  generalize l.measured = m at read queue still
  cases read with
  | pending pending => exact absurd ended (queue t (by rw [pending]; exact List.mem_cons_self ..))
  | newline => cases ended
  | lexeme _ _ spans =>
    exact absurd (spans.no_layout.symm.trans (congrArg Kind.isLayout ended)) Bool.false_ne_true
  | finish none nothing h =>
    cases h with
    | again closed => exact step_of_closed none nothing closed (still none)
    | line | level => cases ended
    | last => exact step_of_closed none nothing rfl (still none)

theorem pull_of_stays (h : l.step = (some t, l)) (count : Nat) :
    pull count l = List.replicate count t := by
  induction count with
  | zero => rfl
  | succ count ih => rw [pull, next_of_token h, ih, List.replicate_succ]

end Token.Lexer

end SheetScript
