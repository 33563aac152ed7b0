import Mathlib.Data.Prod.Lex
import SheetScript.Proofs.Token.Steps

/-!
# Where the tokens of a source stand

Every lexeme stands in the source where its token says, and nothing but blanks, comments and
continued lines stands between them.

* `Text.place front` is the line and the column behind some characters, which the cursor keeps
  (`Text.Cursor.advance_behind`).
* `Covers front rest ts` says that the rest of a source is covered by these tokens, one after
  another: each is at its place, behind a gap, and a lexeme takes the characters that it is written
  with.
* `Lexer.At l source front`: the lexer stands behind these characters of the source. Each step goes
  over a gap and at most one lexeme (`At.step`).
* `tokenize_faithful`: a source without faults is covered by its tokens, which stand in order and
  have as their text what the source has there.
-/

namespace SheetScript.Text

variable {front more : List Char}

/-- The line on which the next character stands. A line ends at a line feed only. -/
def lineBehind (front : List Char) : Nat := front.count '\n' + 1

/-- The column in which the next character stands. -/
def columnBehind (front : List Char) : Nat := (front.reverse.takeWhile (· != '\n')).length + 1

/-- The place behind some characters. -/
def place (front : List Char) : Nat ×ₗ Nat := toLex (lineBehind front, columnBehind front)

theorem lineBehind_newline (front : List Char) :
    lineBehind (front ++ ['\n']) = lineBehind front + 1 := by
  simp [lineBehind]

theorem columnBehind_newline (front : List Char) : columnBehind (front ++ ['\n']) = 1 := by
  simp [columnBehind]

theorem lineBehind_of_ne {c : Char} (h : c ≠ '\n') (front : List Char) :
    lineBehind (front ++ [c]) = lineBehind front := by
  simp [lineBehind, h]

theorem columnBehind_of_ne {c : Char} (h : c ≠ '\n') (front : List Char) :
    columnBehind (front ++ [c]) = columnBehind front + 1 := by
  simp [columnBehind, h]

theorem place_lt_cons (front : List Char) (c : Char) : place front < place (front ++ [c]) := by
  rw [place, place, Prod.Lex.toLex_lt_toLex]
  by_cases h : c = '\n'
  · subst h
    rw [lineBehind_newline]
    exact .inl (Nat.lt_succ_self _)
  · rw [lineBehind_of_ne h, columnBehind_of_ne h]
    exact .inr ⟨rfl, Nat.lt_succ_self _⟩

theorem place_le_append (front more : List Char) : place front ≤ place (front ++ more) := by
  induction more generalizing front with
  | nil => rw [List.append_nil]
  | cons c more ih =>
    rw [List.append_cons]
    exact (place_lt_cons front c).le.trans (ih _)

/-- Behind more characters is a later place. -/
theorem place_lt_append (front : List Char) (some : more ≠ []) :
    place front < place (front ++ more) := by
  obtain ⟨c, more, rfl⟩ := List.exists_cons_of_ne_nil some
  rw [List.append_cons]
  exact (place_lt_cons front c).trans_le (place_le_append _ more)

/-- The cursor behind some characters of a text. -/
def Cursor.behind (front rest : List Char) : Cursor := ⟨rest, lineBehind front, columnBehind front⟩

theorem Cursor.advance_behind (count : Nat) (front rest : List Char) :
    (behind front rest).advance count = behind (front ++ rest.take count) (rest.drop count) := by
  induction count generalizing front rest with
  | zero => rw [List.take_zero, List.append_nil]; rfl
  | succ count ih =>
    cases rest with
    | nil =>
      have stays := ih front []
      rw [List.take_nil, List.drop_nil, List.append_nil] at stays ⊢
      exact stays
    | cons c rest =>
      have step : (behind front (c :: rest)).step = behind (front ++ [c]) rest := by
        by_cases h : c = '\n'
        · subst h
          rw [behind, behind, lineBehind_newline, columnBehind_newline]
          rfl
        · rw [behind, behind, lineBehind_of_ne h, columnBehind_of_ne h]
          unfold Cursor.step
          split
          · next eq => cases eq
          · next eq =>
            cases eq
            exact absurd rfl h
          · next eq =>
            cases eq
            rfl
      rw [advance, step, ih, List.take_succ_cons, List.drop_succ_cons, ← List.append_cons]

end SheetScript.Text

namespace SheetScript

/-- The place of a token. -/
def Token.place (t : Token) : Nat ×ₗ Nat := toLex (t.line, t.column)

namespace Token

/-- The tokens cover the rest of a source, of which the front has been passed. -/
inductive Covers : List Char → List Char → List Token → Prop
  | done {front rest : List Char} (passes : Skips rest []) : Covers front rest []
  | layout {front gap rest : List Char} {t : Token} {ts : List Token}
      (passes : Skips (gap ++ rest) rest) (place : t.place = Text.place (front ++ gap))
      (layout : t.kind.isLayout = true) (others : Covers (front ++ gap) rest ts) :
      Covers front (gap ++ rest) (t :: ts)
  | lexeme {front gap span rest : List Char} {t : Token} {ts : List Token}
      (passes : Skips (gap ++ (span ++ rest)) (span ++ rest))
      (place : t.place = Text.place (front ++ gap)) (no_layout : t.kind.isLayout = false)
      (some : span ≠ []) (written : IsSpan t.kind t.text span)
      (others : Covers (front ++ gap ++ span) rest ts) :
      Covers front (gap ++ (span ++ rest)) (t :: ts)

namespace Covers

variable {front rest gap : List Char} {ts : List Token}

/-- A gap before the tokens is covered. -/
theorem skip (h : Covers (front ++ gap) rest ts) (passes : Skips (gap ++ rest) rest) :
    Covers front (gap ++ rest) ts := by
  cases h with
  | done last => exact .done (passes.trans last)
  | @layout _ gap' rest t ts passes' place layout others =>
    rw [← List.append_assoc]
    rw [List.append_assoc] at place others
    refine .layout ?_ place layout others
    rw [List.append_assoc]
    exact passes.trans passes'
  | @lexeme _ gap' span rest t ts passes' place no_layout some written others =>
    rw [← List.append_assoc]
    rw [List.append_assoc front] at place others
    refine .lexeme ?_ place no_layout some written others
    rw [List.append_assoc]
    exact passes.trans passes'

/-- No token stands before what has been passed. -/
theorem place_le (h : Covers front rest ts) : ∀ t ∈ ts, Text.place front ≤ t.place := by
  induction h with
  | done => exact List.forall_mem_nil _
  | @layout front gap _ _ _ _ place _ _ ih =>
    have here := Text.place_le_append front gap
    exact List.forall_mem_cons.2 ⟨place ▸ here, fun t mem => here.trans (ih t mem)⟩
  | @lexeme front gap span _ _ _ _ place _ _ _ _ ih =>
    have here := Text.place_le_append front gap
    exact List.forall_mem_cons.2 ⟨place ▸ here, fun t mem =>
      here.trans ((Text.place_le_append (front ++ gap) span).trans (ih t mem))⟩

/-- The tokens stand in order. -/
theorem pairwise_le (h : Covers front rest ts) : ts.Pairwise fun t t' => t.place ≤ t'.place := by
  induction h with
  | done => exact .nil
  | layout _ place _ others ih => exact .cons (fun t mem => place ▸ others.place_le t mem) ih
  | @lexeme front gap span _ _ _ _ place _ _ _ others ih =>
    refine .cons (fun t mem => ?_) ih
    rw [place]
    exact (Text.place_le_append (front ++ gap) span).trans (others.place_le t mem)

/-- No two lexemes stand at one place. -/
theorem pairwise_lt (h : Covers front rest ts) :
    (ts.filter (!·.kind.isLayout)).Pairwise fun t t' => t.place < t'.place := by
  induction h with
  | done => exact .nil
  | layout _ _ layout _ ih => simpa [layout] using ih
  | @lexeme front gap span _ _ _ _ place no_layout some _ others ih =>
    rw [List.filter_cons_of_pos (by simp [no_layout])]
    refine .cons (fun t mem => ?_) ih
    rw [place]
    exact (Text.place_lt_append (front ++ gap) some).trans_le
      (others.place_le t (List.mem_filter.1 mem).1)

/-- Each lexeme stands in the source where its token says. -/
theorem exists_span (h : Covers front rest ts) : ∀ t ∈ ts, t.kind.isLayout = false →
    ∃ before span behind, front ++ rest = before ++ (span ++ behind) ∧
      t.place = Text.place before ∧ IsSpan t.kind t.text span := by
  induction h with
  | done => exact List.forall_mem_nil _
  | layout _ _ layout _ ih =>
    refine List.forall_mem_cons.2 ⟨fun no_layout => ?_, fun t mem no_layout => ?_⟩
    · rw [layout] at no_layout
      cases no_layout
    · rw [← List.append_assoc]
      exact ih t mem no_layout
  | lexeme _ place _ _ written _ ih =>
    refine List.forall_mem_cons.2 ⟨fun _ => ?_, fun t mem no_layout => ?_⟩
    · exact ⟨_, _, _, (List.append_assoc ..).symm, place, written⟩
    · rw [← List.append_assoc, ← List.append_assoc]
      exact ih t mem no_layout

end Covers

/-! ## The lexer goes through the source -/

namespace Lexer

variable {l m : Lexer} {source front : List Char} {ts : List Token}

/-- A token that no lexeme has made: the layout or a fault, at its place. -/
structure Extra (front : List Char) (t : Token) : Prop where
  place : t.place = Text.place front
  inner : t.kind ≠ .mark .endOfInput
  kind : t.kind.isLayout = true ∨ ∃ f, t.kind = .fault f

/-- The lexer stands behind these characters of the source, and so do its pending tokens. -/
structure At (l : Lexer) (source front : List Char) : Prop where
  split : source = front ++ l.cursor.rest
  cursor : l.cursor = .behind front l.cursor.rest
  pending : ∀ t ∈ l.pending, Extra front t

theorem at_ofList (source : List Char) : (ofList source).At source [] :=
  ⟨rfl, rfl, List.forall_mem_nil _⟩

theorem At.place_tokenHere (h : l.At source front) (kind : Kind) (text : String) :
    (l.tokenHere kind text).place = Text.place front := by
  rw [tokenHere, h.cursor]
  rfl

theorem At.advance (h : l.At source front) (none : l.pending = []) (count : Nat) :
    (l.advance count).At source (front ++ l.cursor.rest.take count) := by
  have moved : (l.advance count).cursor =
      .behind (front ++ l.cursor.rest.take count) (l.cursor.rest.drop count) := by
    rw [← Text.Cursor.advance_behind, ← h.cursor]
    rfl
  refine ⟨?_, by rw [moved]; rfl, ?_⟩
  · rw [moved, List.append_assoc]
    refine h.split.trans ?_
    rw [← List.take_append_drop count l.cursor.rest]
    simp [Text.Cursor.behind]
  · rw [show (l.advance count).pending = [] from none]
    exact List.forall_mem_nil _

/-- Passing over a gap. -/
theorem At.skip (h : l.At source front) (none : l.pending = []) {count : Nat}
    (passes : Skips l.cursor.rest (l.cursor.rest.drop count)) :
    ∃ gap, l.cursor.rest = gap ++ (l.advance count).cursor.rest ∧
      Skips l.cursor.rest (l.advance count).cursor.rest ∧
      (l.advance count).At source (front ++ gap) := by
  refine ⟨_, ?_, ?_, h.advance none count⟩
  · rw [rest_advance, List.take_append_drop]
  · rwa [rest_advance]

/-- Measuring a line passes over a gap. -/
theorem At.measured (h : l.At source front) (measured : l.Measured m) :
    ∃ gap, l.cursor.rest = gap ++ m.cursor.rest ∧ Skips l.cursor.rest m.cursor.rest ∧
      m.At source (front ++ gap) := by
  have text : l.pending = [] → ∃ gap, l.cursor.rest = gap ++ l.atText.cursor.rest ∧
      Skips l.cursor.rest l.atText.cursor.rest ∧ l.atText.At source (front ++ gap) := by
    intro none
    obtain ⟨idle, eq, passes, stands⟩ := h.skip none (skips_idle _)
    have stands : l.atLine.At source (front ++ idle) :=
      ⟨stands.split, stands.cursor, stands.pending⟩
    obtain ⟨margin, eq', passes', stands'⟩ := stands.skip none (skips_margin _)
    refine ⟨idle ++ margin, ?_, passes.trans passes', ?_⟩
    · rw [eq, List.append_assoc]
      exact congrArg _ eq'
    · rw [← List.append_assoc]
      exact stands'
  cases measured with
  | still => exact ⟨[], rfl, .here _, by rwa [List.append_nil]⟩
  | idle none => exact text none
  | line none _ _ _ indented =>
    obtain ⟨gap, eq, passes, stands⟩ := text none
    have place := stands.place_tokenHere
    refine ⟨gap, ?_⟩
    cases indented with
    | deeper width =>
      refine ⟨eq, passes, stands.split, stands.cursor, List.forall_mem_singleton.2 ?_⟩
      exact ⟨place _ _, nofun, .inl rfl⟩
    | @levels count left fault _ faulty =>
      refine ⟨eq, passes, stands.split, stands.cursor, List.forall_mem_append.2 ⟨?_, ?_⟩⟩
      · intro t mem
        rw [List.eq_of_mem_replicate mem]
        exact ⟨place _ _, nofun, .inl rfl⟩
      · obtain rfl | ⟨-, rfl⟩ := faulty
        · exact List.forall_mem_nil _
        · exact List.forall_mem_singleton.2 ⟨place _ _, nofun, .inr ⟨_, rfl⟩⟩

/-- What a step reads behind a gap, in these characters: a lexeme takes what it is written with,
and the layout takes a line end at most. -/
def Takes (front span rest : List Char) : Option Token → Prop
  | none => span = []
  | some t => t.place = Text.place front ∧ (t.kind = .mark .endOfInput → rest = []) ∧
    (t.kind.isLayout = true ∧ Skips (span ++ rest) rest ∨ (∃ f, t.kind = .fault f) ∨
      t.kind.isLayout = false ∧ span ≠ [] ∧ IsSpan t.kind t.text span)

/-- Behind the gap, the lexer goes on over some characters that are ahead. -/
theorem At.advance_span (h : l.At source front) (none : l.pending = []) {span rest : List Char}
    (ahead : l.cursor.rest = span ++ rest) :
    (l.advance span.length).cursor.rest = rest ∧
      (l.advance span.length).At source (front ++ span) := by
  have moved := h.advance none span.length
  rw [ahead, List.take_left] at moved
  exact ⟨by rw [rest_advance, ahead, List.drop_left], moved⟩

/-- The end of the source reads nothing. -/
theorem At.finish {t : Token} (h : m.At source front) (ended : m.cursor.rest = [])
    (finish : m.Finished t l) :
    l.cursor = m.cursor ∧ l.At source front ∧ t.place = Text.place front ∧
      t.kind.isLayout = true := by
  have place := h.place_tokenHere
  have dedents : ∀ levels : List Nat, ∀ t ∈ levels.map fun _ => m.layoutHere .dedent,
      Extra front t := fun levels t mem => by
    obtain ⟨_, -, rfl⟩ := List.mem_map.1 mem
    exact ⟨place _ _, nofun, .inl rfl⟩
  cases finish with
  | again => exact ⟨rfl, h, place _ _, rfl⟩
  | line | level => exact ⟨rfl, ⟨h.split, h.cursor, dedents _⟩, place _ _, rfl⟩
  | last => exact ⟨rfl, ⟨h.split, h.cursor, h.pending⟩, place _ _, rfl⟩

theorem At.note (h : l.At source front) (kind : Kind) : (l.note kind).At source front :=
  ⟨by rw [note_cursor]; exact h.split, by rw [note_cursor]; exact h.cursor,
    by rw [note_pending]; exact h.pending⟩

/-- What is read stands where it is. -/
theorem At.read {r : Option Token} (h : m.At source front) (read : m.Read r l) :
    ∃ gap span, m.cursor.rest = gap ++ (span ++ l.cursor.rest) ∧
      Skips m.cursor.rest (span ++ l.cursor.rest) ∧ l.At source (front ++ gap ++ span) ∧
      Takes (front ++ gap) span l.cursor.rest r := by
  have behind : m.pending = [] → ∃ gap, m.cursor.rest = gap ++ m.pastGap.cursor.rest ∧
      Skips m.cursor.rest m.pastGap.cursor.rest ∧ m.pastGap.At source (front ++ gap) := fun none =>
    h.skip none (skips_gap _ _)
  cases read with
  | @pending t rest pending =>
    have extra := h.pending
    rw [pending] at extra
    obtain ⟨here, others⟩ := List.forall_mem_cons.1 extra
    have left : ({ m with pending := rest } : Lexer).At source front := ⟨h.split, h.cursor, others⟩
    refine ⟨[], [], ?_, ?_, ?_⟩
    · rw [note_cursor]
      rfl
    · rw [note_cursor]
      exact .here _
    · rw [List.append_nil, List.append_nil]
      exact ⟨left.note t.kind, here.place, fun ended => absurd ended here.inner,
        here.kind.imp (fun layout => ⟨layout, .here _⟩) .inl⟩
  | @passed rest none ahead =>
    obtain ⟨gap, eq, passes, stands⟩ := behind none
    obtain ⟨left, moved⟩ := stands.advance_span none (show _ = ['\n'] ++ rest from ahead)
    have left : (m.pastGap.advance 1).cursor.rest = rest := left
    rw [ahead] at eq passes
    refine ⟨gap ++ ['\n'], [], ?_, ?_, ?_, rfl⟩
    · rw [eq, List.append_assoc]
      exact congrArg _ (congrArg _ left.symm)
    · exact passes.trans (left ▸ (Skips.here _).newline)
    · rw [List.append_nil, ← List.append_assoc]
      exact ⟨moved.split, moved.cursor, moved.pending⟩
  | @newline rest none ahead =>
    obtain ⟨gap, eq, passes, stands⟩ := behind none
    obtain ⟨left, moved⟩ := stands.advance_span none (show _ = ['\n'] ++ rest from ahead)
    have left : (m.pastGap.advance 1).cursor.rest = rest := left
    have front_line : ['\n'] ++ (m.pastGap.advance 1).cursor.rest = m.pastGap.cursor.rest := by
      rw [left, ahead]
      rfl
    refine ⟨gap, ['\n'], ?_, ?_, ⟨moved.split, moved.cursor, moved.pending⟩, ?_⟩
    · exact eq.trans (congrArg _ front_line.symm)
    · exact front_line ▸ passes
    · exact ⟨stands.place_tokenHere _ _, nofun, .inl ⟨rfl, (Skips.here _).newline⟩⟩
  | @lexeme c rest span none ahead spans =>
    obtain ⟨gap, eq, passes, stands⟩ := behind none
    obtain ⟨rest', taken⟩ := spans.front
    obtain ⟨left, moved⟩ := stands.advance_span none (ahead.trans taken.symm)
    refine ⟨gap, span, ?_, ?_, moved.note _, stands.place_tokenHere _ _, fun ended => ?_, ?_⟩
    · rw [note_cursor, left, taken, ← ahead]
      exact eq
    · rw [note_cursor, left, taken, ← ahead]
      exact passes
    · exact absurd (spans.no_layout.symm.trans (congrArg Kind.isLayout ended)) Bool.false_ne_true
    · exact .inr (.inr ⟨spans.no_layout, spans.some, spans.isSpan⟩)
  | finish none ended finish =>
    obtain ⟨gap, eq, passes, stands⟩ := behind none
    obtain ⟨cursor, stands', place, layout⟩ := stands.finish ended finish
    refine ⟨gap, [], ?_, ?_, ?_, place, fun _ => by rw [cursor, ended], .inl ⟨layout, .here _⟩⟩
    · rw [cursor]
      exact eq
    · rw [cursor]
      exact passes
    · rwa [List.append_nil]

/-- **Each step goes over a gap and reads what stands there.** -/
theorem At.step (h : l.At source front) :
    ∃ gap span, l.cursor.rest = gap ++ (span ++ l.step.2.cursor.rest) ∧
      Skips l.cursor.rest (span ++ l.step.2.cursor.rest) ∧
      l.step.2.At source (front ++ gap ++ span) ∧
      Takes (front ++ gap) span l.step.2.cursor.rest l.step.1 := by
  obtain ⟨gap, eq, passes, stands⟩ := h.measured (measured_measured l)
  obtain ⟨gap', span, eq', passes', stands', takes⟩ := stands.read (read_step l)
  rw [List.append_assoc front gap gap'] at stands' takes
  refine ⟨gap ++ gap', span, ?_, passes.trans passes', stands', takes⟩
  rw [eq, eq', List.append_assoc]

/-! ## Runs -/

/-- What a step has read covers what it went over. -/
theorem covers_of_takes {gap span rest : List Char} {t : Token} (no_fault : ∀ f, t.kind ≠ .fault f)
    (passes : Skips (gap ++ (span ++ rest)) (span ++ rest))
    (takes : Takes (front ++ gap) span rest (some t))
    (others : Covers (front ++ gap ++ span) rest ts) :
    Covers front (gap ++ (span ++ rest)) (t :: ts) := by
  obtain ⟨place, -, ⟨layout, line⟩ | ⟨f, fault⟩ | ⟨no_layout, some, written⟩⟩ := takes
  · exact .layout passes place layout (others.skip line)
  · exact absurd fault (no_fault f)
  · exact .lexeme passes place no_layout some written others

theorem At.runs (h : l.At source front) (runs : l.Runs ts m)
    (no_fault : ∀ t ∈ ts, ∀ f, t.kind ≠ .fault f) :
    ∃ behind, m.At source behind ∧
      ∀ ts', Covers behind m.cursor.rest ts' → Covers front l.cursor.rest (ts ++ ts') := by
  induction runs generalizing front with
  | nil => exact ⟨front, h, fun _ others => others⟩
  | silent step _ ih =>
    obtain ⟨gap, span, eq, passes, stands, takes⟩ := h.step
    rw [step] at eq passes stands takes
    obtain rfl : span = [] := takes
    obtain ⟨behind, stands', covers⟩ := ih stands no_fault
    refine ⟨behind, stands', fun ts' others => ?_⟩
    rw [eq, List.nil_append] at passes ⊢
    refine Covers.skip ?_ passes
    have covered := covers ts' others
    rwa [List.append_nil] at covered
  | token step _ _ ih =>
    obtain ⟨gap, span, eq, passes, stands, takes⟩ := h.step
    rw [step] at eq passes stands takes
    obtain ⟨here, others⟩ := List.forall_mem_cons.1 no_fault
    obtain ⟨behind, stands', covers⟩ := ih stands others
    refine ⟨behind, stands', fun ts' rest => ?_⟩
    rw [eq] at passes ⊢
    exact covers_of_takes here passes takes (covers ts' rest)

end Lexer

open Lexer in
/-- A source without faults is covered by its tokens. -/
theorem covers_tokenize {source : String} (h : ∀ t ∈ tokenize source, ∀ f, t.kind ≠ .fault f) :
    Covers [] source.toList (tokenize source) := by
  obtain ⟨ts, last, m, m', runs, ends, kind, eq⟩ := exists_run source
  rw [eq] at h ⊢
  obtain ⟨no_fault, no_fault'⟩ := List.forall_mem_append.1 h
  obtain ⟨behind, stands, covers⟩ := (at_ofList source.toList).runs runs no_fault
  refine covers [last] ?_
  obtain ⟨gap, span, split, passes, -, takes⟩ := stands.step
  rw [ends] at split passes takes
  rw [split] at passes ⊢
  refine covers_of_takes (List.forall_mem_singleton.1 no_fault') passes takes ?_
  rw [takes.2.1 kind]
  exact .done (.here [])

/-- **Tokens are where the source has them**: in a source without faults the tokens stand in order,
lexemes one behind the other; each lexeme but a string has as its text what the source has at its
line and column; and the source is covered, nothing but blanks, comments and continued lines being
left between the lexemes. -/
theorem tokenize_faithful {source : String} (h : ∀ t ∈ tokenize source, ∀ f, t.kind ≠ .fault f) :
    (tokenize source).Pairwise (fun t t' => t.place ≤ t'.place) ∧
    ((tokenize source).filter (!·.kind.isLayout)).Pairwise (fun t t' => t.place < t'.place) ∧
    (∀ t ∈ tokenize source, t.kind.isLayout = false → (∀ value, t.kind ≠ .string value) →
      ∃ front behind, source.toList = front ++ (t.text.toList ++ behind) ∧
        t.line = Text.lineBehind front ∧ t.column = Text.columnBehind front) ∧
    Covers [] source.toList (tokenize source) := by
  have covers := covers_tokenize h
  refine ⟨covers.pairwise_le, covers.pairwise_lt, fun t mem no_layout no_string => ?_, covers⟩
  obtain ⟨front, span, behind, split, place, written⟩ := covers.exists_span t mem no_layout
  obtain ⟨line, column⟩ := Prod.mk.inj (toLex.injective place)
  refine ⟨front, behind, ?_, line, column⟩
  have itself : t.text.toList = span := by
    cases kind : t.kind with
    | string value => exact absurd kind (no_string value)
    | fault f => exact absurd kind (h t mem f)
    | _ => exact (kind ▸ written : IsSpan _ _ _)
  rw [itself, ← split]
  rfl

instance Kind.decidableNoFault : (kind : Kind) → Decidable (∀ f, kind ≠ .fault f)
  | .fault f => .isFalse fun none => none f rfl
  | .number _ | .string _ | .name _ | .mark _ => .isTrue fun _ => Kind.noConfusion

/-- A block with a comment, a string with an escape over a continued line, and a list over two
lines. -/
theorem tokenize_faithful_block :
    let source := "if a.b >= 1.5:  # note\n\tx += \"it \\\n is\" + \\\n  [1, # one\n2]\n\n\ny"
    (∀ t ∈ tokenize source, ∀ f, t.kind ≠ .fault f) ∧
      (tokenize source).Pairwise (fun t t' => t.place ≤ t'.place) ∧
      ((tokenize source).filter (!·.kind.isLayout)).Pairwise (fun t t' => t.place < t'.place) ∧
      Covers [] source.toList (tokenize source) := by
  intro source
  have no_fault : ∀ t ∈ tokenize source, ∀ f, t.kind ≠ .fault f := by decide
  obtain ⟨ordered, lexemes, -, covers⟩ := tokenize_faithful no_fault
  exact ⟨no_fault, ordered, lexemes, covers⟩

end Token

end SheetScript
