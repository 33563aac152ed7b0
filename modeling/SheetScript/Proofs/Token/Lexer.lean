import SheetScript.Proofs.Token.Lexeme
import SheetScript.Token.Lexer

/-!
# Reading one line

What the lexer does on a source of one line, lexeme by lexeme.

* `Lexer.Within` says that the lexer stands within its first line, `Lexer.Reads` that it reads
  tokens of some kinds on its way from one place to another.
* `Lexer.Spells` says that characters spell kinds of tokens, whatever stands before them, as long as
  what follows them is right. Spellings are put together by `Spells.append` and `Spells.blank`.
* `tokenize_of_spells`: the tokens of a line are those that it spells, and the end of the line.
-/

namespace SheetScript.Token

open Lexer

/-- A character that starts a lexeme. -/
structure Begins (c : Char) : Prop where
  no_blank : Text.isBlank c = false
  no_comment : c ≠ '#'
  no_continuation : c ≠ '\\'

namespace Begins

variable {c : Char} {rest : List Char}

theorem ne_newline (h : Begins c) : c ≠ '\n' := by
  rintro rfl
  cases h.no_blank

theorem not_inMargin (h : Begins c) : inMargin c = false := by
  rw [Bool.eq_false_iff]
  intro margin
  simp only [inMargin, Bool.or_eq_true, beq_iff_eq] at margin
  rcases margin with (rfl | rfl) | rfl <;> cases h.no_blank

theorem gapLength_eq (h : Begins c) (bracketed : Bool) (count : Nat) :
    gapLength bracketed count false (c :: rest) = count := by
  have no_end := h.ne_newline
  have no_continuation := h.no_continuation
  unfold gapLength
  split
  · next eq => cases eq
  · next eq =>
    cases eq
    exact absurd rfl no_end
  · next eq =>
    cases eq
    exact absurd rfl no_continuation
  · next eq =>
    cases eq
    simp [h.no_blank, h.no_comment]

theorem idleLength_eq (h : Begins c) : idleLength 0 0 false (c :: rest) = 0 := by
  have no_end := h.ne_newline
  unfold idleLength
  split
  · next eq => cases eq
  · next eq =>
    cases eq
    exact absurd rfl no_end
  · next eq =>
    cases eq
    simp [h.not_inMargin, h.no_comment]

end Begins

/-- One more blank is one more character of the gap. -/
theorem gapLength_blank (bracketed : Bool) (rest : List Char) :
    gapLength bracketed 0 false (' ' :: rest) = gapLength bracketed 0 false rest + 1 := by
  have shift : ∀ (cs : List Char) (count : Nat) (comment : Bool),
      gapLength bracketed (count + 1) comment cs = gapLength bracketed count comment cs + 1 := by
    intro cs count comment
    fun_induction gapLength bracketed count comment cs <;> simp_all [gapLength]
  rw [← shift]
  rfl

namespace Lexer

/-! ## Places of a line -/

/-- The lexer stands within the first line of a source, in no level, and these characters are
ahead. -/
structure Within (l : Lexer) (ahead : List Char) : Prop where
  rest : l.cursor.rest = ahead
  line : l.cursor.line = 1
  measured : l.atLineStart = false
  pending : l.pending = []
  levels : l.levels = []
  closed : l.closed = false

/-- The line has begun: a lexeme of it has been read. -/
def InLine (l : Lexer) : Prop := l.started ∧ l.lineEnded = false

variable {l l' : Lexer} {c : Char} {front rest : List Char} {kind : Kind} {text : String}

theorem advance_front (h : l.cursor.rest = front ++ rest) (no_end : '\n' ∉ front) :
    (l.advance front.length).cursor = ⟨rest, l.cursor.line, l.cursor.column + front.length⟩ := by
  have moved : ∀ (front : List Char) (line column : Nat), '\n' ∉ front →
      Text.Cursor.advance front.length ⟨front ++ rest, line, column⟩ =
        ⟨rest, line, column + front.length⟩ := by
    intro front
    induction front with
    | nil => exact fun _ _ _ => rfl
    | cons c front ih =>
      intro line column no_end
      obtain ⟨no_here, no_later⟩ := List.ne_and_not_mem_of_not_mem_cons no_end
      have step : Text.Cursor.step ⟨c :: (front ++ rest), line, column⟩ =
          ⟨front ++ rest, line, column + 1⟩ := by
        unfold Text.Cursor.step
        split
        · next eq => cases eq
        · next eq =>
          cases eq
          exact absurd rfl no_here
        · next eq =>
          cases eq
          rfl
      rw [List.cons_append, List.length_cons, Text.Cursor.advance, step, ih _ _ no_later,
        Nat.add_assoc, Nat.add_comm 1]
  rw [← moved front l.cursor.line l.cursor.column no_end, ← h]
  rfl

theorem Within.advance (h : l.Within (front ++ rest)) (no_end : '\n' ∉ front) :
    (l.advance front.length).Within rest := by
  have moved := advance_front h.rest no_end
  exact ⟨by rw [moved], by rw [moved]; exact h.line, h.measured, h.pending, h.levels, h.closed⟩

theorem Within.advance_blank (h : l.Within (' ' :: rest)) : (l.advance 1).Within rest :=
  @Within.advance l [' '] rest h (by decide)

/-- A lexeme is noted; the place stays. -/
theorem Within.note (h : l.Within rest) (lexeme : ∀ m, kind = .mark m → m.isLayout = false) :
    (l.note kind).Within rest ∧ (l.note kind).InLine := by
  obtain ⟨rest, line, measured, pending, levels, closed⟩ := h
  cases kind with
  | mark m =>
    have no_layout := lexeme m rfl
    cases m with
    | newline | indent | dedent | endOfInput => cases no_layout
    | _ => exact ⟨⟨rest, line, measured, pending, levels, closed⟩, rfl, rfl⟩
  | _ => exact ⟨⟨rest, line, measured, pending, levels, closed⟩, rfl, rfl⟩

/-! ## Steps -/

/-- What a step reads behind the gap: a lexeme, the end of the line or the end of the source. -/
def stepHere (l : Lexer) : Option Token × Lexer :=
  match l.cursor.rest with
  | [] => (some l.finish.1, l.finish.2)
  | '\n' :: _ =>
    let next := { l.advance 1 with atLineStart := true }
    if !l.started || l.lineEnded then (none, next)
    else (some (l.tokenHere (.mark .newline) "\\n"), next.note (.mark .newline))
  | c :: rest =>
    let lexeme := Lexeme.ofCons c rest
    (some (l.tokenHere lexeme.kind lexeme.text), (l.advance lexeme.length).note lexeme.kind)

/-- Within a line, a step goes over the gap and reads what is there. -/
theorem step_within (h : l.Within rest) :
    l.step = (l.advance (gapLength (l.brackets != 0) 0 false rest)).stepHere := by
  unfold step
  rw [h.measured, Bool.and_false, Bool.false_and, if_neg Bool.false_ne_true]
  dsimp only
  rw [takePending, h.pending, h.rest]
  rfl

/-- A step reads the lexeme that is ahead. -/
theorem step_lexeme (h : l.Within (c :: rest)) (begins : Begins c)
    (lexeme : Lexeme.ofCons c rest = ⟨kind, text, front.length⟩) :
    l.step = (some (l.tokenHere kind text), (l.advance front.length).note kind) := by
  have no_end := begins.ne_newline
  rw [step_within h, begins.gapLength_eq]
  unfold stepHere
  rw [show (l.advance 0).cursor.rest = c :: rest from h.rest]
  split
  · next eq => cases eq
  · next eq =>
    cases eq
    exact absurd rfl no_end
  · next eq =>
    cases eq
    rw [lexeme]
    rfl

/-- A step reads past a blank. -/
theorem step_blank (h : l.Within (' ' :: rest)) : l.step = (l.advance 1).step := by
  have moved : (l.advance 1).Within rest := h.advance_blank
  rw [step_within h, step_within moved, gapLength_blank]
  rfl

/-! ## Readings -/

/-- On its way from one place to another the lexer reads tokens of these kinds, on the first
line. -/
def Reads (l : Lexer) (kinds : List Kind) (l' : Lexer) : Prop :=
  ∃ ts : List Token, ts.map Token.kind = kinds ∧ (∀ t ∈ ts, t.line = 1) ∧
    ∀ room before, runWithin (ts.length + room) before l = runWithin room (ts.reverse ++ before) l'

theorem reads_nil (l : Lexer) : l.Reads [] l :=
  ⟨[], rfl, fun _ mem => absurd mem List.not_mem_nil, fun room before => by simp⟩

theorem Reads.trans {l'' : Lexer} {kinds kinds' : List Kind} (h : l.Reads kinds l')
    (h' : l'.Reads kinds' l'') : l.Reads (kinds ++ kinds') l'' := by
  obtain ⟨ts, eq, first, run⟩ := h
  obtain ⟨ts', eq', first', run'⟩ := h'
  refine ⟨ts ++ ts', by rw [List.map_append, eq, eq'], List.forall_mem_append.2 ⟨first, first'⟩,
    fun room before => ?_⟩
  rw [List.length_append, Nat.add_assoc, run, run', List.reverse_append, List.append_assoc]

theorem reads_lexeme (h : l.Within (c :: rest)) (begins : Begins c)
    (no_layout : ∀ m, kind = .mark m → m.isLayout = false)
    (lexeme : Lexeme.ofCons c rest = ⟨kind, text, front.length⟩) :
    l.Reads [kind] ((l.advance front.length).note kind) := by
  refine ⟨[l.tokenHere kind text], rfl, fun t mem => ?_, fun room before => ?_⟩
  · rw [List.mem_singleton.1 mem]
    exact h.line
  · have no_end : kind.isMark .endOfInput = false := by
      cases kind with
      | mark m =>
        have no_layout := no_layout m rfl
        cases m <;> first | rfl | cases no_layout
      | _ => rfl
    rw [List.length_singleton, Nat.add_comm, runWithin, step_lexeme h begins lexeme]
    simp only [tokenHere, no_end]
    rfl

/-! ## Spellings -/

/-- The characters spell tokens of these kinds: wherever they are ahead and what is behind them is
right, the lexer reads such tokens over them. -/
structure Spells (follow : List Char → Prop) (front : List Char) (kinds : List Kind) : Prop where
  /-- Each token takes a character. -/
  length_le : kinds.length ≤ front.length
  reads : ∀ ⦃rest⦄, follow rest → ∀ ⦃l : Lexer⦄, l.Within (front ++ rest) →
    ∃ l', l.Reads kinds l' ∧ l'.Within rest ∧ (l.InLine ∨ kinds ≠ [] → l'.InLine)

variable {follow follow' : List Char → Prop} {front' : List Char} {kinds kinds' : List Kind}

theorem spells_nil (follow : List Char → Prop) : Spells follow [] [] where
  length_le := Nat.le_refl 0
  reads := fun _ _ l h =>
    ⟨l, reads_nil l, h, fun begun => begun.resolve_right fun some => some rfl⟩

theorem Spells.append (h : Spells follow front kinds) (h' : Spells follow' front' kinds')
    (meets : ∀ rest, follow' rest → follow (front' ++ rest)) :
    Spells follow' (front ++ front') (kinds ++ kinds') where
  length_le := by
    rw [List.length_append, List.length_append]
    exact Nat.add_le_add h.length_le h'.length_le
  reads := by
    intro rest right l within
    rw [List.append_assoc] at within
    obtain ⟨l', reads, within', begun⟩ := h.reads (meets rest right) within
    obtain ⟨l'', reads', within'', begun'⟩ := h'.reads right within'
    refine ⟨l'', reads.trans reads', within'', fun start => begun' ?_⟩
    by_cases some : kinds' = []
    · subst some
      rw [List.append_nil] at start
      exact Or.inl (begun start)
    · exact Or.inr some

theorem Spells.mono (h : Spells follow front kinds)
    (weaker : ∀ rest, follow' rest → follow rest) : Spells follow' front kinds :=
  ⟨h.length_le, fun rest right => h.reads (weaker rest right)⟩

/-- A blank before a lexeme does not matter. -/
theorem Spells.blank (h : Spells follow front kinds) (some : kinds ≠ []) :
    Spells follow (' ' :: front) kinds where
  length_le := Nat.le_trans h.length_le (Nat.le_succ _)
  reads := by
    intro rest right l within
    have moved : (l.advance 1).Within (front ++ rest) := within.advance_blank
    obtain ⟨l', ⟨ts, eq, first, run⟩, within', begun⟩ := h.reads right moved
    refine ⟨l', ⟨ts, eq, first, fun room before => ?_⟩, within', fun _ => begun (Or.inr some)⟩
    obtain ⟨t, ts', cons⟩ : ∃ t ts', ts = t :: ts' := List.exists_cons_of_ne_nil fun none_left => by
      rw [none_left] at eq
      exact some eq.symm
    -- the first step is the same with the blank and without it
    rw [← run, cons, List.length_cons, Nat.add_right_comm, runWithin, runWithin, step_blank within]

/-- A lexeme spells its kind. -/
theorem spells_lexeme (begins : Begins c) (no_end : '\n' ∉ front)
    (no_layout : ∀ m, kind = .mark m → m.isLayout = false)
    (lexeme : ∀ rest, follow rest → Lexeme.ofCons c (front ++ rest) = .plain kind (c :: front)) :
    Spells follow (c :: front) [kind] where
  length_le := Nat.succ_le_succ (Nat.zero_le _)
  reads := by
    intro rest right l within
    have no_end' : '\n' ∉ c :: front :=
      List.not_mem_cons_of_ne_of_not_mem begins.ne_newline.symm no_end
    obtain ⟨noted, begun⟩ := (within.advance no_end').note no_layout
    exact ⟨_, reads_lexeme within begins no_layout (lexeme rest right), noted, fun _ => begun⟩

/-! ## A source of one line -/

/-- The first line of a source that starts with a lexeme has no margin. -/
theorem within_measureLine (begins : Begins c) :
    (ofList (c :: rest)).measureLine.Within (c :: rest) := by
  have margin : (c :: rest).takeWhile inMargin = [] :=
    List.takeWhile_cons_of_neg (by simp [begins.not_inMargin])
  unfold measureLine
  rw [show (ofList (c :: rest)).cursor.rest = c :: rest from rfl, begins.idleLength_eq]
  dsimp only
  rw [show ((ofList (c :: rest)).advance 0).cursor.rest = c :: rest from rfl, margin]
  exact ⟨rfl, rfl, rfl, rfl, rfl, rfl⟩

theorem step_measureLine (begins : Begins c) :
    (ofList (c :: rest)).step = (ofList (c :: rest)).measureLine.step := by
  have within : (ofList (c :: rest)).measureLine.Within (c :: rest) := within_measureLine begins
  conv_rhs => rw [step_within within]
  have measured : ((ofList (c :: rest)).pending.isEmpty && (ofList (c :: rest)).atLineStart &&
      (ofList (c :: rest)).brackets == 0) = true := rfl
  unfold step
  rw [measured, if_pos rfl]
  dsimp only
  rw [takePending, within.pending, within.rest]
  rfl

/-- The lexer where a source has ended and its last line is closed. -/
def ended (l : Lexer) : Lexer :=
  { l with closed := true, pending := [], levels := [], lineEnded := true }

/-- The end of a source closes its last line. -/
theorem step_end (h : l.Within []) (begun : l.InLine) :
    l.step = (some (l.layoutHere .newline), l.ended) := by
  obtain ⟨rest, -, measured, pending, levels, closed⟩ := h
  obtain ⟨started, open_line⟩ := begun
  obtain ⟨⟨_, _, _⟩, _, _, _, _, _, _, _⟩ := l
  cases rest
  cases measured
  cases pending
  cases levels
  cases closed
  cases started
  cases open_line
  rfl

/-- Behind the last line, there is nothing more. -/
theorem step_ended (h : l.Within []) :
    l.ended.step = (some (l.layoutHere .endOfInput), l.ended) := by
  obtain ⟨rest, -, measured, -, -, -⟩ := h
  obtain ⟨⟨_, _, _⟩, _, _, _, _, _, _, _⟩ := l
  cases rest
  cases measured
  rfl

/-- At the end of a source, the line is closed, and then the source. -/
theorem runWithin_end (h : l.Within []) (begun : l.InLine) :
    ∃ newline last : Token, newline.kind = .mark .newline ∧ last.kind = .mark .endOfInput ∧
      ∀ room before, (runWithin (room + 2) before l).1 = before.reverse ++ [newline, last] := by
  refine ⟨l.layoutHere .newline, l.layoutHere .endOfInput, rfl, rfl, fun room before => ?_⟩
  rw [runWithin, step_end h begun]
  dsimp only
  rw [if_neg (show ¬ (l.layoutHere .newline).kind.isMark .endOfInput from Bool.false_ne_true),
    runWithin, step_ended h]
  dsimp only
  rw [if_pos (show (l.layoutHere .endOfInput).kind.isMark .endOfInput from rfl)]
  simp

end Lexer

open Lexer in
/-- **The tokens of a line** are those that it spells, the end of the line and the end of the
source. -/
theorem tokenize_of_spells {s : String} {follow : List Char → Prop} {kinds : List Kind}
    (h : Spells follow s.toList kinds) (right : follow []) (some : kinds ≠ [])
    (begins : ∃ c rest, s.toList = c :: rest ∧ Begins c) :
    ∃ (ts : List Token) (newline last : Token), tokenize s = ts ++ [newline, last] ∧
      ts.map Token.kind = kinds ∧ (∀ t ∈ ts, t.line = 1) ∧
      newline.kind = .mark .newline ∧ last.kind = .mark .endOfInput := by
  obtain ⟨c, rest, text, begins⟩ := begins
  have within : (ofList (c :: rest)).measureLine.Within (c :: rest) := within_measureLine begins
  have fits := h.length_le
  rw [← text, ← List.append_nil s.toList] at within
  obtain ⟨l', ⟨ts, eq, first, run⟩, within', begun⟩ := h.reads right within
  obtain ⟨newline, last, newline_kind, last_kind, stop⟩ :=
    runWithin_end within' (begun (Or.inr some))
  refine ⟨ts, newline, last, ?_, eq, first, newline_kind, last_kind⟩
  -- the bound on the steps leaves room for the tokens and the end
  have taken : ts.length ≤ s.toList.length := by rwa [← eq, List.length_map] at fits
  obtain ⟨room, bound⟩ : ∃ room, stepBound s.toList = ts.length + (room + 2) :=
    ⟨stepBound s.toList - ts.length - 2, by unfold stepBound; omega⟩
  have start : ∀ steps, runWithin (steps + 1) [] (ofList s.toList) =
      runWithin (steps + 1) [] (ofList s.toList).measureLine := fun steps => by
    rw [runWithin, runWithin, text, step_measureLine begins]
  unfold tokenize Lexer.run
  rw [List.append_nil] at run
  rw [bound, show ts.length + (room + 2) = ts.length + (room + 1) + 1 from rfl, start,
    show ts.length + (room + 1) + 1 = ts.length + (room + 2) from rfl, run, stop]
  simp

end SheetScript.Token
