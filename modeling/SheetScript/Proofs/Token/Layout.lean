import SheetScript.Proofs.Token.Steps

/-!
# The layout of every source

Whatever a source holds, its line ends and levels are in order.

* `LaidOut levels begun ts`: how tokens go on where so many levels are open and a line has begun or
  not. `LaidOut.wellLaidOut` reads off what that means for the list.
* `Lexer.Sound l levels begun`: the lexer stands where that is so, levels that are pending counted
  as its reader sees them. Each step keeps it (`Sound.measured`, `Sound.read`).
* `tokenize_wellLaidOut`: the tokens of every source are well laid out, and asked for more the lexer
  gives the end of the input again.
-/

namespace SheetScript.Token

/-! ## Layouts -/

/-- What a token makes of the open levels and of a line that has begun. Levels open and close
between lines only. -/
inductive Turn : Kind → Nat → Bool → Nat → Bool → Prop
  | newline (levels : Nat) : Turn (.mark .newline) levels true levels false
  | indent (levels : Nat) : Turn (.mark .indent) levels false (levels + 1) false
  | dedent (levels : Nat) : Turn (.mark .dedent) (levels + 1) false levels false
  | lexeme {kind : Kind} (levels : Nat) (begun : Bool) (no_layout : kind.isLayout = false) :
      Turn kind levels begun levels true

theorem Turn.inner {kind : Kind} {levels levels' : Nat} {begun begun' : Bool}
    (h : Turn kind levels begun levels' begun') : kind ≠ .mark .endOfInput := by
  rintro rfl
  cases h with
  | lexeme _ _ no_layout => cases no_layout

/-- The levels that a turn opens and closes. -/
theorem Turn.levels_eq {kind : Kind} {levels levels' : Nat} {begun begun' : Bool}
    (h : Turn kind levels begun levels' begun') :
    levels + (if kind.isMark .indent then 1 else 0) =
      levels' + if kind.isMark .dedent then 1 else 0 := by
  cases h with
  | newline | indent | dedent => rfl
  | lexeme _ _ no_layout =>
    cases kind with
    | mark m => cases m <;> first | rfl | cases no_layout
    | _ => rfl

/-- Tokens up to the end of the input, where so many levels are open and a line has begun or not. -/
inductive LaidOut : Nat → Bool → List Token → Prop
  | last {t : Token} (h : t.kind = .mark .endOfInput) : LaidOut 0 false [t]
  | cons {t : Token} {ts : List Token} {levels levels' : Nat} {begun begun' : Bool}
      (turn : Turn t.kind levels begun levels' begun') (rest : LaidOut levels' begun' ts) :
      LaidOut levels begun (t :: ts)

/-- How many of the tokens are a mark. -/
def countMark (m : Mark) (ts : List Token) : Nat := ts.countP (·.kind.isMark m)

/-- The layout is well formed. -/
structure WellLaidOut (ts : List Token) : Prop where
  /-- The end of the input stands at the end, and nowhere else. -/
  ended : ∃ front last, ts = front ++ [last] ∧ last.kind = .mark .endOfInput ∧
    ∀ t ∈ front, t.kind ≠ .mark .endOfInput
  /-- As many levels are opened as closed. -/
  balanced : countMark .indent ts = countMark .dedent ts
  /-- No level is closed before it is opened. -/
  nested : ∀ front, front <+: ts → countMark .dedent front ≤ countMark .indent front
  /-- No line end comes first. -/
  first : ∀ t ∈ ts.head?, t.kind ≠ .mark .newline
  /-- Between two line ends stands a lexeme. -/
  separated : ∀ {front between behind : List Token} {t t' : Token},
    ts = front ++ t :: (between ++ t' :: behind) → t.kind = .mark .newline →
    t'.kind = .mark .newline → ∃ lexeme ∈ between, lexeme.kind.isLayout = false
  /-- The last lexeme is followed by a line end. -/
  closed : ∀ {front behind : List Token} {t : Token}, ts = front ++ t :: behind →
    t.kind.isLayout = false → (∀ t' ∈ behind, t'.kind.isLayout = true) →
    ∃ t' ∈ behind.head?, t'.kind = .mark .newline

namespace LaidOut

variable {levels : Nat} {begun : Bool} {ts : List Token}

/-- A token that is not the last makes a turn. -/
theorem exists_turn {t : Token} (h : LaidOut levels begun (t :: ts)) (some : ts ≠ []) :
    ∃ levels' begun', Turn t.kind levels begun levels' begun' ∧ LaidOut levels' begun' ts := by
  cases h with
  | last => exact absurd rfl some
  | cons turn rest => exact ⟨_, _, turn, rest⟩

theorem ended (h : LaidOut levels begun ts) : ∃ front last, ts = front ++ [last] ∧
    last.kind = .mark .endOfInput ∧ ∀ t ∈ front, t.kind ≠ .mark .endOfInput := by
  induction h with
  | @last t kind => exact ⟨[], t, rfl, kind, List.forall_mem_nil _⟩
  | @cons t _ _ _ _ _ turn _ ih =>
    obtain ⟨front, last, rfl, kind, inner⟩ := ih
    exact ⟨t :: front, last, rfl, kind, List.forall_mem_cons.2 ⟨turn.inner, inner⟩⟩

theorem balanced (h : LaidOut levels begun ts) :
    levels + countMark .indent ts = countMark .dedent ts := by
  induction h with
  | @last t kind => simp [countMark, kind, Kind.isMark]
  | @cons t ts _ _ _ _ turn _ ih =>
    have turned := turn.levels_eq
    simp only [countMark, List.countP_cons] at ih ⊢
    omega

theorem nested (h : LaidOut levels begun ts) {front : List Token} (before : front <+: ts) :
    countMark .dedent front ≤ levels + countMark .indent front := by
  induction h generalizing front with
  | @last t kind =>
    obtain ⟨behind, eq⟩ := before
    obtain rfl | ⟨rfl, rfl⟩ := List.append_eq_singleton_iff.1 eq |>.imp_left And.left
    · exact Nat.zero_le _
    · simp [countMark, kind, Kind.isMark]
  | @cons t ts _ _ _ _ turn _ ih =>
    cases front with
    | nil => exact Nat.zero_le _
    | cons t' front =>
      obtain ⟨rfl, before'⟩ := List.cons_prefix_cons.1 before
      have turned := turn.levels_eq
      have rest := ih before'
      simp only [countMark, List.countP_cons] at rest ⊢
      omega

/-- Where no line has begun, a lexeme comes before the next line end. -/
theorem exists_lexeme (h : LaidOut levels false ts) {between behind : List Token} {t : Token}
    (eq : ts = between ++ t :: behind) (ends : t.kind = .mark .newline) :
    ∃ lexeme ∈ between, lexeme.kind.isLayout = false := by
  induction between generalizing levels ts with
  | nil =>
    subst eq
    cases h with
    | last kind => cases kind.symm.trans ends
    | cons turn =>
      rw [ends] at turn
      cases turn with
      | lexeme _ _ no_layout => cases no_layout
  | cons t' between ih =>
    subst eq
    obtain ⟨_, _, turn, rest⟩ := h.exists_turn (by simp)
    generalize kind : t'.kind = k at turn
    cases turn with
    | indent | dedent =>
      obtain ⟨lexeme, mem, no_layout⟩ := ih rest rfl
      exact ⟨lexeme, List.mem_cons_of_mem _ mem, no_layout⟩
    | lexeme _ _ no_layout => exact ⟨t', List.mem_cons_self .., kind ▸ no_layout⟩

theorem separated (h : LaidOut levels begun ts) {front between behind : List Token} {t t' : Token}
    (eq : ts = front ++ t :: (between ++ t' :: behind)) (ends : t.kind = .mark .newline)
    (ends' : t'.kind = .mark .newline) : ∃ lexeme ∈ between, lexeme.kind.isLayout = false := by
  induction front generalizing levels begun ts with
  | nil =>
    subst eq
    obtain ⟨_, _, turn, rest⟩ := h.exists_turn (by simp)
    rw [ends] at turn
    cases turn with
    | newline => exact rest.exists_lexeme rfl ends'
    | lexeme _ _ no_layout => cases no_layout
  | cons _ front ih =>
    subst eq
    obtain ⟨_, _, -, rest⟩ := h.exists_turn (by simp)
    exact ih rest rfl

/-- Where a line has begun, either a lexeme comes or the line ends. -/
theorem closed (h : LaidOut levels begun ts) {front behind : List Token} {t : Token}
    (eq : ts = front ++ t :: behind) (no_layout : t.kind.isLayout = false)
    (others : ∀ t' ∈ behind, t'.kind.isLayout = true) :
    ∃ t' ∈ behind.head?, t'.kind = .mark .newline := by
  induction front generalizing levels begun ts with
  | nil =>
    subst eq
    cases h with
    | last kind =>
      rw [kind] at no_layout
      cases no_layout
    | cons turn rest =>
      generalize t.kind = k at turn no_layout
      cases turn with
      | newline | indent | dedent => cases no_layout
      | lexeme =>
        cases rest with
        | @cons t' _ _ _ _ _ turn =>
          generalize kind : t'.kind = k at turn
          cases turn with
          | newline => exact ⟨t', rfl, kind⟩
          | lexeme _ _ lexeme =>
            rw [← kind, others t' (List.mem_cons_self ..)] at lexeme
            cases lexeme
  | cons _ front ih =>
    subst eq
    obtain ⟨_, _, -, rest⟩ := h.exists_turn (by simp)
    exact ih rest rfl

theorem wellLaidOut (h : LaidOut 0 false ts) : WellLaidOut ts where
  ended := h.ended
  balanced := by simpa using h.balanced
  nested _ before := by simpa using h.nested before
  first t front ends := by
    obtain ⟨behind, rfl⟩ := List.head?_eq_some_iff.1 front
    obtain ⟨lexeme, mem, -⟩ := h.exists_lexeme (List.nil_append (t :: behind)).symm ends
    exact absurd mem List.not_mem_nil
  separated := h.separated
  closed := h.closed

end LaidOut

/-! ## The lexer keeps the layout -/

namespace Lexer

variable {l m : Lexer} {levels levels' : Nat} {begun : Bool} {ts : List Token} {t : Token}

/-- Pending tokens that lead from so many open levels to others: levels close, and then perhaps one
opens or a fault stands. -/
inductive Queue : Nat → Nat → List Token → Prop
  | nil (levels : Nat) : Queue levels levels []
  | fault {t : Token} (levels : Nat) (no_layout : t.kind.isLayout = false) :
      Queue levels levels [t]
  | indent {t : Token} (levels : Nat) (h : t.kind = .mark .indent) :
      Queue levels (levels + 1) [t]
  | dedent {t : Token} {ts : List Token} {levels levels' : Nat} (h : t.kind = .mark .dedent)
      (rest : Queue levels levels' ts) : Queue (levels + 1) levels' (t :: ts)

/-- Levels that close one after another. -/
theorem Queue.closing (h : t.kind = .mark .dedent) (count : Nat) (rest : Queue levels levels' ts) :
    Queue (levels + count) levels' (List.replicate count t ++ ts) := by
  induction count with
  | zero => exact rest
  | succ count ih => exact .dedent h ih

theorem Queue.levels_eq (h : Queue levels levels' []) : levels = levels' := by
  cases h
  rfl

theorem Queue.inner (h : Queue levels levels' ts) : ∀ t ∈ ts, t.kind ≠ .mark .endOfInput := by
  induction h with
  | nil => exact List.forall_mem_nil _
  | fault _ no_layout =>
    refine List.forall_mem_singleton.2 fun ended => ?_
    rw [ended] at no_layout
    cases no_layout
  | indent _ kind => exact List.forall_mem_singleton.2 fun ended => nomatch kind.symm.trans ended
  | dedent kind _ ih =>
    exact List.forall_mem_cons.2 ⟨fun ended => (nomatch kind.symm.trans ended), ih⟩

/-- The lexer stands where so many levels are open and a line has begun or not. A line is only
measured, and levels only pend, where none has begun. -/
structure Sound (l : Lexer) (levels : Nat) (begun : Bool) : Prop where
  queue : Queue levels l.levels.length l.pending
  line : l.begun = begun
  quiet : l.pending ≠ [] → begun = false
  start : l.atLineStart = true → begun = false ∧ l.brackets = 0 ∧ l.pending = []
  closed : l.closed = true → begun = false ∧ l.cursor.rest = [] ∧ l.levels = [] ∧
    ∀ t ∈ l.pending, t.kind.isLayout = true

theorem sound_ofList (cs : List Char) : (ofList cs).Sound 0 false where
  queue := .nil 0
  line := rfl
  quiet := fun _ => rfl
  start := fun _ => ⟨rfl, rfl, rfl⟩
  closed := nofun

/-- Measuring a line changes nothing for the reader; then no line starts. -/
theorem Sound.measured (h : l.Sound levels begun) (measured : l.Measured m) :
    m.Sound levels begun ∧ m.atLineStart = false := by
  cases measured with
  | still still =>
    refine ⟨h, Bool.eq_false_iff.2 fun start => ?_⟩
    obtain ⟨-, outside, none⟩ := h.start start
    obtain some | no_start | inside := still
    · exact some none
    · rw [start] at no_start
      cases no_start
    · exact inside outside
  | idle none start _ ended =>
    have idle := (h.start start).1
    refine ⟨⟨h.queue, h.line, fun _ => idle, nofun, fun closed => ?_⟩, rfl⟩
    obtain ⟨-, -, levels, layout⟩ := h.closed closed
    exact ⟨idle, ended, levels, layout⟩
  | line none start _ some indented =>
    have idle := (h.start start).1
    have going : l.closed = false := Bool.eq_false_iff.2 fun closed => by
      have short := length_atText l
      rw [(h.closed closed).2.1, List.length_nil] at short
      exact some (List.eq_nil_of_length_eq_zero (by omega))
    have closed : ∀ {p : Prop}, l.closed = true → p := fun closed => by
      rw [going] at closed
      cases closed
    obtain rfl := (none ▸ h.queue : Queue _ _ []).levels_eq
    cases indented with
    | deeper width =>
      exact ⟨⟨.indent _ rfl, h.line, fun _ => idle, nofun, closed⟩, rfl⟩
    | @levels count left fault eq faulty =>
      have rest : Queue left.length left.length fault := by
        obtain rfl | ⟨-, rfl⟩ := faulty
        · exact .nil _
        · exact .fault _ rfl
      have queue := rest.closing (rfl : (l.atText.layoutHere .dedent).kind = _) count
      rw [eq] at queue
      exact ⟨⟨queue, h.line, fun _ => idle, nofun, closed⟩, rfl⟩

/-- The lexer goes on: a token makes a turn, and the end of the input is read where all levels are
closed and no line has begun. -/
def GoesOn (levels : Nat) (begun : Bool) (l : Lexer) : Option Token → Prop
  | none => l.Sound levels begun
  | some t => t.kind = .mark .endOfInput ∧ levels = 0 ∧ begun = false ∨
    ∃ levels' begun', Turn t.kind levels begun levels' begun' ∧ l.Sound levels' begun'

/-- What is pending was noted in its place. -/
theorem Sound.pending {rest : List Token} (h : m.Sound levels begun)
    (no_start : m.atLineStart = false) (pending : m.pending = t :: rest) :
    GoesOn levels begun ({ m with pending := rest }.note t.kind) (some t) := by
  have idle : begun = false := h.quiet (by rw [pending]; exact List.cons_ne_nil _ _)
  have start : ∀ {p : Prop}, m.atLineStart = true → p := fun start => by
    rw [no_start] at start
    cases start
  have queue := h.queue
  have closed := h.closed
  have line := h.line
  rw [pending] at queue closed
  subst idle
  generalize length : m.levels.length = count at queue
  refine .inr ?_
  cases queue with
  | fault _ no_layout =>
    refine ⟨levels, true, .lexeme _ _ no_layout, ?_, begun_note _ no_layout, ?_, ?_, ?_⟩
    · rw [note_levels, note_pending]
      exact length ▸ .nil _
    · rw [note_pending]
      exact fun some => absurd rfl some
    · rw [note_atLineStart]
      exact start
    · rw [note_closed]
      intro last
      have layout := (closed last).2.2.2 t (List.mem_cons_self ..)
      rw [no_layout] at layout
      cases layout
  | indent _ kind =>
    rw [kind]
    exact ⟨levels + 1, false, .indent _, length ▸ .nil _, line, fun _ => rfl, start, fun last =>
      ⟨rfl, (closed last).2.1, (closed last).2.2.1, fun _ mem => absurd mem List.not_mem_nil⟩⟩
  | dedent kind queue =>
    rw [kind]
    exact ⟨_, false, .dedent _, length ▸ queue, line, fun _ => rfl, start, fun last =>
      ⟨rfl, (closed last).2.1, (closed last).2.2.1, fun _ mem =>
        (closed last).2.2.2 _ (List.mem_cons_of_mem _ mem)⟩⟩

theorem Sound.advance (h : m.Sound levels begun) (count : Nat) :
    (m.advance count).Sound levels begun :=
  ⟨h.queue, h.line, h.quiet, h.start, fun closed => ⟨(h.closed closed).1, by
    rw [rest_advance, (h.closed closed).2.1, List.drop_nil], (h.closed closed).2.2⟩⟩

/-- The end of the source closes the layout. -/
theorem Sound.finish {last : Lexer} (h : m.Sound levels begun) (no_start : m.atLineStart = false)
    (none : m.pending = []) (ended : m.cursor.rest = []) (finish : m.Finished t last) :
    GoesOn levels begun last (some t) := by
  obtain rfl := (none ▸ h.queue : Queue _ _ []).levels_eq
  have start : ∀ {p : Prop}, m.atLineStart = true → p := fun start => by
    rw [no_start] at start
    cases start
  have dedents : ∀ levels : List Nat,
      Queue levels.length 0 (levels.map fun _ => m.layoutHere .dedent) := fun levels => by
    have queue := (Queue.nil 0).closing (rfl : (m.layoutHere .dedent).kind = _) levels.length
    rwa [List.append_nil, Nat.zero_add, ← List.map_const'] at queue
  have layout : ∀ levels : List Nat, ∀ t ∈ levels.map fun _ => m.layoutHere .dedent,
      t.kind.isLayout = true := fun levels t mem => by
    obtain ⟨_, -, rfl⟩ := List.mem_map.1 mem
    rfl
  cases finish with
  | again closed =>
    obtain ⟨idle, -, closed_levels, -⟩ := h.closed closed
    exact .inl ⟨rfl, by rw [closed_levels, List.length_nil], idle⟩
  | line first line =>
    obtain rfl := h.line.symm.trans line
    have ended_line : (m.started && !true) = false := Bool.and_false _
    exact .inr ⟨_, false, .newline _, dedents _, ended_line, fun _ => rfl, start,
      fun _ => ⟨rfl, ended, rfl, layout _⟩⟩
  | level first idle eq =>
    obtain rfl := h.line.symm.trans idle
    rw [eq]
    exact .inr ⟨_, false, .dedent _, dedents _, idle, fun _ => rfl, start,
      fun _ => ⟨rfl, ended, rfl, layout _⟩⟩
  | last first idle closed_levels =>
    exact .inl ⟨rfl, by rw [closed_levels, List.length_nil], h.line.symm.trans idle⟩

/-- What is read makes a turn of the layout. -/
theorem Sound.read {r : Option Token} (h : m.Sound levels begun) (no_start : m.atLineStart = false)
    (read : m.Read r l) : GoesOn levels begun l r := by
  have start : ∀ {p : Prop}, m.atLineStart = true → p := fun start => by
    rw [no_start] at start
    cases start
  -- a closed lexer has nothing ahead
  have going : ∀ {c rest} {p : Prop}, m.pastGap.cursor.rest = c :: rest → m.closed = true → p := by
    intro c rest p ahead closed
    have behind : m.pastGap.Sound levels begun := h.advance _
    rw [(behind.closed closed).2.1] at ahead
    cases ahead
  -- inside brackets no line end is ahead
  have outside : ∀ {rest}, m.pastGap.cursor.rest = '\n' :: rest → m.brackets = 0 := by
    intro rest ahead
    refine Decidable.byContradiction fun inside => ?_
    have stops := head?_drop_gapLength m.cursor.rest
    rw [pastGap, rest_advance, bne_iff_ne.2 inside] at ahead
    rw [ahead] at stops
    exact stops rfl
  cases read with
  | pending pending => exact h.pending no_start pending
  | passed none ahead idle =>
    obtain rfl := h.line.symm.trans idle
    exact ⟨h.queue, h.line, h.quiet, fun _ => ⟨rfl, outside ahead, none⟩, going ahead⟩
  | newline none ahead line =>
    obtain rfl := h.line.symm.trans line
    have ended_line : (m.started && !true) = false := Bool.and_false _
    exact .inr ⟨_, false, .newline _, h.queue, ended_line, fun _ => rfl,
      fun _ => ⟨rfl, outside ahead, none⟩, going ahead⟩
  | lexeme none ahead spans =>
    refine .inr ⟨_, true, .lexeme _ _ spans.no_layout, ?_, begun_note _ spans.no_layout, ?_, ?_, ?_⟩
    · rw [note_levels, note_pending]
      exact h.queue
    · rw [note_pending]
      exact fun some => absurd none some
    · rw [note_atLineStart]
      exact start
    · rw [note_closed]
      exact going ahead
  | finish none ended finish => exact (h.advance _).finish no_start none ended finish

/-- **Each step keeps the layout.** -/
theorem Sound.step (h : l.Sound levels begun) : GoesOn levels begun l.step.2 l.step.1 := by
  obtain ⟨measured, no_start⟩ := h.measured (measured_measured l)
  exact measured.read no_start (read_step l)

/-! ## Runs -/

theorem Sound.runs (h : l.Sound levels begun) (runs : l.Runs ts m) :
    ∃ levels' begun', m.Sound levels' begun' ∧
      ∀ ts', LaidOut levels' begun' ts' → LaidOut levels begun (ts ++ ts') := by
  induction runs generalizing levels begun with
  | nil => exact ⟨levels, begun, h, fun _ rest => rest⟩
  | silent step _ ih =>
    have goes := h.step
    rw [step] at goes
    exact ih goes
  | token step inner _ ih =>
    have goes := h.step
    rw [step] at goes
    obtain ⟨ended, -⟩ | ⟨_, _, turn, sound⟩ := goes
    · exact absurd ended inner
    · obtain ⟨levels', begun', sound', rest⟩ := ih sound
      exact ⟨levels', begun', sound', fun ts' laid => .cons turn (rest ts' laid)⟩

end Lexer

open Lexer in
/-- **The layout of every source is well formed**, and whoever asks for more tokens than there are
gets the end of the input again, at the same place. -/
theorem tokenize_wellLaidOut (source : String) :
    WellLaidOut (tokenize source) ∧
      ∃ last, (tokenize source).getLast? = some last ∧ last.kind = .mark .endOfInput ∧
        ∀ more, pull ((tokenize source).length + more) (ofList source.toList) =
          tokenize source ++ List.replicate more last := by
  obtain ⟨ts, last, m, m', runs, ends, kind, eq⟩ := exists_run source
  obtain ⟨levels, begun, sound, laid⟩ := (sound_ofList source.toList).runs runs
  have goes := sound.step
  rw [ends] at goes
  obtain ⟨-, rfl, rfl⟩ | ⟨_, _, turn, -⟩ := goes
  · have stays := step_of_endOfInput ends kind (sound.measured (measured_measured m)).1.queue.inner
    rw [eq]
    refine ⟨(laid [last] (.last kind)).wellLaidOut, last, by simp, kind, fun more => ?_⟩
    rw [List.length_append, List.length_singleton, Nat.add_assoc, Nat.add_comm 1,
      pull_of_runs runs, pull, next_of_token ends, pull_of_stays stays, List.append_assoc]
    rfl
  · exact absurd kind turn.inner

end SheetScript.Token
