import SheetScript.Proofs.Token.Layout

/-!
# Two lexers side by side

What a lexer reads depends on what is ahead of it, and not on where it stands. Two lexers whose
texts ahead go together read tokens that look alike, step by step.

* `nextLine` and `afterGap` are what a lexer finds where it measures a line and where it has passed
  a gap; `Ahead` is what stands there.
* `Lexer.Abreast` compares two lexers but for their texts. `Lexer.Abreast.step` compares a step of
  each, as long as what they find goes together.
* `Keeps view R` says that texts in `R` go on together, whatever a lexer does with them. Then the
  tokens up to the end of the input look alike (`Lexer.Yields.abreast`).

What of a token is compared is its `view`: its kind, or its kind and its text.
-/

namespace SheetScript

/-- What a token shows wherever it stands. -/
def Token.shown (t : Token) : Token.Kind × String := (t.kind, t.text)

namespace Token

/-- What a lexeme shows. -/
def Lexeme.shown (lexeme : Lexeme) : Kind × String := (lexeme.kind, lexeme.text)

/-! ## What a lexer finds -/

/-- The next line that holds something: how far in it is, and the line without its margin. The
margin read so far has this width. -/
def nextLine (width : Nat) (comment : Bool) : List Char → Option (Nat × List Char)
  | [] => none
  | '\n' :: rest => nextLine 0 false rest
  | c :: rest =>
    if comment || c == '#' then nextLine width true rest
    else if inMargin c then nextLine (widen width c) false rest
    else some (width, c :: rest)

/-- What is left behind a gap. -/
def afterGap (bracketed : Bool) (comment : Bool) : List Char → List Char
  | [] => []
  | '\n' :: rest => if bracketed then afterGap bracketed false rest else '\n' :: rest
  | '\\' :: '\n' :: rest =>
    if comment then
      if bracketed then afterGap bracketed false rest else '\n' :: rest
    else afterGap bracketed false rest
  | c :: rest =>
    if comment || c == '#' then afterGap bracketed true rest
    else if Text.isBlank c then afterGap bracketed false rest
    else c :: rest

theorem afterGap_cons {bracketed comment : Bool} {c : Char} {rest : List Char} (no_end : c ≠ '\n')
    (no_continuation : ∀ next, c = '\\' → rest = '\n' :: next → False) :
    afterGap bracketed comment (c :: rest) =
      if comment || c == '#' then afterGap bracketed true rest
      else if Text.isBlank c then afterGap bracketed false rest
      else c :: rest := by
  rw [afterGap]
  · exact no_end
  · exact no_continuation

/-- A lexeme starts here: no gap and no line end is at the front. -/
structure AtLexeme (c : Char) (rest : List Char) : Prop where
  no_end : c ≠ '\n'
  no_comment : c ≠ '#'
  no_continuation : c = '\\' → rest.head? ≠ some '\n'

theorem atLexeme_of_afterGap {bracketed comment : Bool} {c : Char} {cs rest : List Char}
    (h : afterGap bracketed comment cs = c :: rest) : c = '\n' ∨ AtLexeme c rest := by
  fun_induction afterGap bracketed comment cs with
  | case1 => cases h
  | case2 _ _ _ ih | case4 _ _ ih | case6 _ _ _ ih => exact ih h
  | case7 _ _ _ _ _ _ ih | case8 _ _ _ _ _ _ _ ih => exact ih h
  | case3 | case5 =>
    cases h
    exact .inl rfl
  | case9 comment c rest no_end no_slash outside some =>
    cases h
    refine .inr ⟨no_end, ?_, fun slash next => ?_⟩
    · rintro rfl
      exact outside (by simp)
    · obtain ⟨behind, rfl⟩ := List.head?_eq_some_iff.1 next
      exact no_slash behind slash rfl

theorem drop_gapLength (bracketed : Bool) (count : Nat) (comment : Bool) (cs : List Char) :
    ∃ taken, gapLength bracketed count comment cs = count + taken ∧
      cs.drop taken = afterGap bracketed comment cs := by
  fun_induction gapLength bracketed count comment cs with
  | case1 count comment => exact ⟨0, rfl, by simp [afterGap]⟩
  | case2 count comment rest inside ih =>
    obtain ⟨taken, eq, left⟩ := ih
    exact ⟨taken + 1, by omega, by simpa [afterGap, inside] using left⟩
  | case3 count comment rest outside => exact ⟨0, rfl, by simp [afterGap, outside]⟩
  | case4 count rest inside ih =>
    obtain ⟨taken, eq, left⟩ := ih
    exact ⟨taken + 2, by omega, by simpa [afterGap, inside] using left⟩
  | case5 count rest outside => exact ⟨1, rfl, by simp [afterGap, outside]⟩
  | case6 count comment rest outside ih =>
    obtain ⟨taken, eq, left⟩ := ih
    exact ⟨taken + 2, by omega, by simpa [afterGap, outside] using left⟩
  | case7 count comment c rest no_end no_slash starts ih =>
    obtain ⟨taken, eq, left⟩ := ih
    refine ⟨taken + 1, by omega, ?_⟩
    rw [List.drop_succ_cons, left, afterGap, if_pos starts]
    all_goals assumption
  | case8 count comment c rest no_end no_slash outside blank ih =>
    obtain ⟨taken, eq, left⟩ := ih
    refine ⟨taken + 1, by omega, ?_⟩
    rw [List.drop_succ_cons, left, afterGap, if_neg outside, if_pos blank]
    all_goals assumption
  | case9 count comment c rest no_end no_slash outside some =>
    refine ⟨0, rfl, ?_⟩
    rw [List.drop_zero, afterGap, if_neg outside, if_neg some]
    all_goals assumption

theorem skips_afterGap (bracketed : Bool) (cs : List Char) :
    Skips cs (afterGap bracketed false cs) := by
  obtain ⟨taken, eq, left⟩ := drop_gapLength bracketed 0 false cs
  have passes := skips_gap bracketed cs
  rwa [eq, Nat.zero_add, left] at passes

/-- How far in a line is and what stands behind its margin, if anything does. -/
def splitMargin (line : List Char) : Option (Nat × List Char) :=
  if (line.dropWhile inMargin).isEmpty then none
  else some ((line.takeWhile inMargin).foldl widen 0, line.dropWhile inMargin)

/-- The next line that holds something stands behind those that hold nothing. Here `line` is what
has been read of a line, behind `before`: a margin, perhaps with a comment. -/
theorem nextLine_eq (width : Nat) (comment : Bool) (before line cs : List Char)
    (margin : comment = false → (∀ c ∈ line, inMargin c = true) ∧ width = line.foldl widen 0) :
    nextLine width comment cs = splitMargin ((before ++ line ++ cs).drop
      (idleLength before.length (before ++ line).length comment cs)) := by
  fun_induction nextLine width comment cs generalizing before line with
  | case1 width comment => simp [idleLength, splitMargin]
  | case2 width comment rest ih =>
    rw [idleLength, ih (before ++ line ++ ['\n']) [] (fun _ => ⟨nofun, rfl⟩)]
    simp [Nat.add_assoc]
  | case3 width comment c rest no_end starts ih =>
    rw [idleLength, if_pos starts, ih before (line ++ [c]) nofun]
    all_goals first | assumption | simp [Nat.add_assoc]
  | case4 width comment c rest no_end outside within ih =>
    obtain ⟨all, eq⟩ := margin (Bool.or_eq_false_iff.1 (Bool.eq_false_iff.2 outside)).1
    rw [idleLength, if_neg outside, if_pos within, ih before (line ++ [c]) fun _ => ⟨?_, ?_⟩]
    · simp [Nat.add_assoc]
    · rw [List.forall_mem_append, List.forall_mem_singleton]
      exact ⟨all, within⟩
    · rw [List.foldl_append, eq]
      rfl
    · assumption
  | case5 width comment c rest no_end outside some =>
    obtain ⟨all, eq⟩ := margin (Bool.or_eq_false_iff.1 (Bool.eq_false_iff.2 outside)).1
    rw [idleLength, if_neg outside, if_neg some, List.append_assoc, List.drop_left, splitMargin,
      List.dropWhile_append_of_pos all, List.dropWhile_cons_of_neg some,
      List.takeWhile_append_of_pos all, List.takeWhile_cons_of_neg some, List.append_nil, eq]
    · rfl
    · assumption

theorem drop_margin (line : List Char) :
    line.drop (line.takeWhile inMargin).length = line.dropWhile inMargin := by
  have parts := line.takeWhile_append_dropWhile (p := inMargin)
  nth_rewrite 2 [← parts]
  exact List.drop_left

/-- Only lines that hold nothing, and a margin, stand before the next line. -/
theorem skips_nextLine {width : Nat} {cs line : List Char}
    (h : nextLine 0 false cs = some (width, line)) : Skips cs line := by
  rw [nextLine_eq 0 false [] [] cs fun _ => ⟨nofun, rfl⟩] at h
  change splitMargin (cs.drop (idleLength 0 0 false cs)) = _ at h
  have passes := (skips_idle cs).trans (skips_margin _)
  unfold splitMargin at h
  split at h
  · cases h
  · cases h
    rwa [drop_margin] at passes

namespace Lexer

variable {l l' m m' : Lexer}

/-- A line is measured where one starts, outside of brackets and with no token pending. -/
def Starts (l : Lexer) : Prop := l.pending = [] ∧ l.atLineStart = true ∧ l.brackets = 0

instance (l : Lexer) : Decidable l.Starts := inferInstanceAs (Decidable (_ ∧ _))

theorem rest_atText (l : Lexer) : l.atText.cursor.rest =
    (l.cursor.rest.drop (idleLength 0 0 false l.cursor.rest)).dropWhile inMargin := by
  rw [atText, rest_advance, margin, drop_margin]
  exact congrArg _ (rest_advance l _)

theorem skips_atText (l : Lexer) : Skips l.cursor.rest l.atText.cursor.rest := by
  rw [rest_atText, ← drop_margin]
  exact (skips_idle _).trans (skips_margin _)

theorem nextLine_rest (l : Lexer) : nextLine 0 false l.cursor.rest =
    if l.atText.cursor.rest = [] then none
    else some (l.margin.foldl widen 0, l.atText.cursor.rest) := by
  have line : l.atLine.cursor.rest = l.cursor.rest.drop (idleLength 0 0 false l.cursor.rest) :=
    rest_advance l _
  rw [nextLine_eq 0 false [] [] _ fun _ => ⟨nofun, rfl⟩]
  change splitMargin (l.cursor.rest.drop (idleLength 0 0 false l.cursor.rest)) = _
  rw [splitMargin, ← rest_atText, ← line]
  simp only [List.isEmpty_iff, margin]

theorem measured_of_starts (h : l.Starts) : l.measured = l.measureLine := by
  obtain ⟨none, start, outside⟩ := h
  rw [measured, none, start, outside]
  rfl

theorem measured_of_not_starts (h : ¬l.Starts) : l.measured = l := by
  refine if_neg fun starts => h ?_
  simpa only [Starts, Bool.and_eq_true, List.isEmpty_iff, beq_iff_eq, and_assoc] using starts

theorem measureLine_of_nil (h : l.atText.cursor.rest = []) : l.measureLine = l.atText := by
  rw [measureLine_eq, h]
  rfl

theorem measureLine_of_ne_nil (h : l.atText.cursor.rest ≠ []) :
    l.measureLine = l.atText.indentTo (l.margin.foldl widen 0) := by
  rw [measureLine_eq, if_neg (mt List.isEmpty_iff.1 h)]

theorem rest_indentTo (l : Lexer) (width : Nat) :
    (l.indentTo width).cursor.rest = l.cursor.rest := by
  unfold indentTo
  split <;> rfl

theorem rest_pastGap (l : Lexer) :
    l.pastGap.cursor.rest = afterGap (l.brackets != 0) false l.cursor.rest := by
  obtain ⟨taken, eq, left⟩ := drop_gapLength (l.brackets != 0) 0 false l.cursor.rest
  rw [pastGap, rest_advance, eq, Nat.zero_add, left]

/-- What a step reads behind what it measures. -/
def read (m : Lexer) : Option Token × Lexer :=
  match m.takePending with
  | some (t, m) => (some t, m)
  | none => m.pastGap.stepHere

theorem step_eq_read (l : Lexer) : l.step = l.measured.read := step_eq l

theorem read_of_some {t : Token} (h : m.takePending = some (t, m')) : m.read = (some t, m') := by
  rw [read, h]

theorem read_of_none (h : m.takePending = none) : m.read = m.pastGap.stepHere := by
  rw [read, h]

theorem takePending_eq_none : m.takePending = none ↔ m.pending = [] := by
  unfold takePending
  split
  · next none => exact ⟨fun _ => none, fun _ => rfl⟩
  · next some => exact ⟨nofun, fun none => nomatch some.symm.trans none⟩

/-- The lexer at the end of a source, with the last line and the levels to be closed. -/
def closing (l : Lexer) : Lexer :=
  if l.closed then l
  else
    { l with
      closed := true
      pending := (if l.started && !l.lineEnded then [l.layoutHere .newline] else []) ++
        l.levels.map fun _ => l.layoutHere .dedent
      levels := [] }

theorem finish_eq (l : Lexer) :
    l.finish = l.closing.takePending.getD (l.closing.layoutHere .endOfInput, l.closing) := rfl

theorem cursor_of_takePending {t : Token} (h : l.takePending = some (t, m)) :
    m.cursor = l.cursor := by
  unfold takePending at h
  split at h
  · cases h
  · cases h
    exact note_cursor _ _

/-- The end of a source is not passed. -/
theorem finish_cursor (l : Lexer) : l.finish.2.cursor = l.cursor := by
  have closing : l.closing.cursor = l.cursor := by
    unfold Lexer.closing
    split <;> rfl
  rw [finish_eq]
  cases pending : l.closing.takePending with
  | none => exact closing
  | some r => exact (cursor_of_takePending pending).trans closing

end Lexer

/-- What stands behind a gap. -/
inductive Ahead where
  | nothing
  | lineEnd (rest : List Char)
  | lexeme (lexeme : Lexeme) (rest : List Char)

/-- What stands at the front. -/
def Ahead.ofList : List Char → Ahead
  | [] => nothing
  | '\n' :: rest => lineEnd rest
  | c :: rest => lexeme (Lexeme.ofCons c rest) ((c :: rest).drop (Lexeme.ofCons c rest).length)

/-- What is behind it. -/
def Ahead.rest : Ahead → List Char
  | nothing => []
  | lineEnd rest => rest
  | lexeme _ rest => rest

namespace Lexer

/-- What a lexer does with what stands at the front. -/
def meet (l : Lexer) : Ahead → Option Token × Lexer
  | .nothing => (some l.finish.1, l.finish.2)
  | .lineEnd _ =>
    if l.begun then
      (some (l.tokenHere (.mark .newline) "\\n"),
        { l.advance 1 with atLineStart := true, lineEnded := true })
    else (none, { l.advance 1 with atLineStart := true })
  | .lexeme lexeme _ =>
    (some (l.tokenHere lexeme.kind lexeme.text), (l.advance lexeme.length).note lexeme.kind)

theorem stepHere_eq (l : Lexer) : l.stepHere = l.meet (.ofList l.cursor.rest) := by
  unfold stepHere
  split
  · next ended => rw [ended, Ahead.ofList, meet]
  · next ahead =>
    have begun : (!l.started || l.lineEnded) = !l.begun := by
      rw [begun, Bool.not_and, Bool.not_not]
    rw [ahead, Ahead.ofList, meet, begun]
    cases l.begun <;> rfl
  · next c rest no_end ahead =>
    rw [ahead, Ahead.ofList, meet]
    exact no_end

theorem rest_stepHere (l : Lexer) :
    l.stepHere.2.cursor.rest = (Ahead.ofList l.cursor.rest).rest := by
  rw [stepHere_eq]
  generalize rest : l.cursor.rest = cs
  unfold Ahead.ofList
  split
  · exact (congrArg Text.Cursor.rest l.finish_cursor).trans rest
  · have passed : (l.advance 1).cursor.rest = _ := (rest_advance l 1).trans (congrArg _ rest)
    rw [meet]
    split <;> exact passed
  · exact (congrArg Text.Cursor.rest (note_cursor _ _)).trans
      ((rest_advance l _).trans (congrArg _ rest))

end Lexer

/-! ## What goes together -/

section

variable {β : Type} (view : Kind × String → β) (R : List Char → List Char → Prop)

/-- Two lines are equally far in and go together. -/
inductive LinesAlike : Option (Nat × List Char) → Option (Nat × List Char) → Prop
  | none (ended : R [] []) : LinesAlike none none
  | some {width : Nat} {line line' : List Char} (h : R line line') :
      LinesAlike (some (width, line)) (some (width, line'))

/-- The same stands at two places, as far as one can see, and what is behind it goes together. -/
inductive Ahead.Alike : Ahead → Ahead → Prop
  | nothing (ended : R [] []) : Alike nothing nothing
  | lineEnd {rest rest' : List Char} (h : R rest rest') : Alike (lineEnd rest) (lineEnd rest')
  | lexeme {lexeme lexeme' : Lexeme} {rest rest' : List Char}
      (same : view lexeme.shown = view lexeme'.shown) (h : R rest rest') :
      Alike (.lexeme lexeme rest) (.lexeme lexeme' rest')

variable {view R} in
theorem Ahead.Alike.rest {x x' : Ahead} (h : Ahead.Alike view R x x') : R x.rest x'.rest := by
  cases h with
  | nothing ended => exact ended
  | lineEnd h => exact h
  | lexeme _ h => exact h

/-- Texts that go together go on together, whatever a lexer does with them. -/
structure Keeps : Prop where
  line {cs cs' : List Char} (h : R cs cs') :
    LinesAlike R (nextLine 0 false cs) (nextLine 0 false cs')
  ahead {cs cs' : List Char} (h : R cs cs') (bracketed : Bool) :
    Ahead.Alike view R (.ofList (afterGap bracketed false cs))
      (.ofList (afterGap bracketed false cs'))

/-- Two lexers are abreast if they differ in their texts and places only, and in what one cannot see
of the tokens that pend. -/
structure Lexer.Abreast (l l' : Lexer) : Prop where
  levels : l.levels = l'.levels
  brackets : l.brackets = l'.brackets
  atLineStart : l.atLineStart = l'.atLineStart
  pending : l.pending.map (view ∘ Token.shown) = l'.pending.map (view ∘ Token.shown)
  started : l.started = l'.started
  lineEnded : l.lineEnded = l'.lineEnded
  closed : l.closed = l'.closed

end

namespace Lexer

variable {β : Type} {view : Kind × String → β} {R : List Char → List Char → Prop}
  {l l' m m' : Lexer}

/-- A view that tells kinds apart. -/
def ShowsKind (view : Kind × String → β) : Prop := ∀ a b, view a = view b → a.1 = b.1

namespace Abreast

/-- It does not matter where a lexer stands and what is ahead of it. -/
theorem moved (l : Lexer) (cursor : Text.Cursor) : { l with cursor := cursor }.Abreast view l :=
  ⟨rfl, rfl, rfl, rfl, rfl, rfl, rfl⟩

theorem symm (h : l.Abreast view l') : l'.Abreast view l :=
  ⟨h.levels.symm, h.brackets.symm, h.atLineStart.symm, h.pending.symm, h.started.symm,
    h.lineEnded.symm, h.closed.symm⟩

theorem trans {l'' : Lexer} (h : l.Abreast view l') (h' : l'.Abreast view l'') :
    l.Abreast view l'' :=
  ⟨h.levels.trans h'.levels, h.brackets.trans h'.brackets, h.atLineStart.trans h'.atLineStart,
    h.pending.trans h'.pending, h.started.trans h'.started, h.lineEnded.trans h'.lineEnded,
    h.closed.trans h'.closed⟩

theorem pending_eq_nil (h : l.Abreast view l') : l.pending = [] ↔ l'.pending = [] := by
  rw [← List.map_eq_nil_iff (f := view ∘ Token.shown), h.pending, List.map_eq_nil_iff]

theorem starts (h : l.Abreast view l') : l.Starts ↔ l'.Starts := by
  rw [Starts, Starts, h.pending_eq_nil, h.atLineStart, h.brackets]

theorem begun (h : l.Abreast view l') : l.begun = l'.begun := by
  rw [Lexer.begun, Lexer.begun, h.started, h.lineEnded]

theorem note (h : l.Abreast view l') (kind : Kind) :
    (l.note kind).Abreast view (l'.note kind) := by
  obtain ⟨levels, brackets, atLineStart, pending, started, lineEnded, closed⟩ := h
  unfold Lexer.note
  split
  · exact ⟨levels, brackets, atLineStart, pending, started, rfl, closed⟩
  · exact ⟨levels, brackets, atLineStart, pending, started, lineEnded, closed⟩
  · exact ⟨levels, brackets, atLineStart, pending, started, lineEnded, closed⟩
  · exact ⟨levels, brackets, atLineStart, pending, started, lineEnded, closed⟩
  · rw [brackets]
    exact ⟨levels, rfl, atLineStart, pending, rfl, rfl, closed⟩
  · exact ⟨levels, brackets, atLineStart, pending, rfl, rfl, closed⟩

theorem indentTo (h : l.Abreast view l') (width : Nat) :
    (l.indentTo width).Abreast view (l'.indentTo width) := by
  obtain ⟨levels, brackets, atLineStart, -, started, lineEnded, closed⟩ := h
  have innermost : l.width = l'.width := by rw [Lexer.width, Lexer.width, levels]
  unfold Lexer.indentTo
  rw [innermost, levels]
  split
  · exact ⟨rfl, brackets, atLineStart, rfl, started, lineEnded, closed⟩
  · refine ⟨rfl, brackets, atLineStart, ?_, started, lineEnded, closed⟩
    dsimp only
    rw [List.map_append, List.map_append, List.map_replicate, List.map_replicate]
    congr 1
    split <;> rfl

/-- Measuring a line keeps two lexers abreast, if the lines that they find go together. -/
theorem measured (h : l.Abreast view l') (together : ¬l.Starts → R l.cursor.rest l'.cursor.rest)
    (line : l.Starts → LinesAlike R (nextLine 0 false l.cursor.rest)
      (nextLine 0 false l'.cursor.rest)) :
    l.measured.Abreast view l'.measured ∧ R l.measured.cursor.rest l'.measured.cursor.rest := by
  by_cases starts : l.Starts
  · have atText : l.atText.Abreast view l'.atText :=
      ⟨h.levels, h.brackets, rfl, h.pending, h.started, h.lineEnded, h.closed⟩
    have found := line starts
    rw [nextLine_rest, nextLine_rest] at found
    rw [measured_of_starts starts, measured_of_starts (h.starts.1 starts)]
    split at found <;> split at found
    · next ended ended' =>
      cases found with
      | none together =>
        rw [measureLine_of_nil ended, measureLine_of_nil ended', ended, ended']
        exact ⟨atText, together⟩
    · cases found
    · cases found
    · next some some' =>
      generalize width : l'.margin.foldl widen 0 = width at found
      cases found with
      | some together =>
        rw [measureLine_of_ne_nil some, measureLine_of_ne_nil some', width, rest_indentTo,
          rest_indentTo]
        exact ⟨atText.indentTo _, together⟩
  · rw [measured_of_not_starts starts, measured_of_not_starts (mt h.starts.2 starts)]
    exact ⟨h, together starts⟩

/-- Either nothing pends, or what pends looks alike. -/
theorem takePending (kinds : ShowsKind view) (h : l.Abreast view l') :
    (l.takePending = none ∧ l'.takePending = none) ∨
      ∃ t t' m m', l.takePending = some (t, m) ∧ l'.takePending = some (t', m') ∧
        view t.shown = view t'.shown ∧ m.Abreast view m' := by
  have pending := h.pending
  unfold Lexer.takePending
  cases queue : l.pending with
  | nil =>
    rw [h.pending_eq_nil.1 queue]
    exact .inl ⟨rfl, rfl⟩
  | cons t rest =>
    rw [queue, List.map_cons] at pending
    obtain ⟨t', rest', queue', same, later⟩ := List.map_eq_cons_iff.1 pending.symm
    rw [queue']
    have kind : t.kind = t'.kind := (kinds _ _ same).symm
    refine .inr ⟨t, t', _, _, rfl, rfl, same.symm, ?_⟩
    rw [kind]
    have h : Abreast view { l with pending := rest } { l' with pending := rest' } :=
      ⟨h.levels, h.brackets, h.atLineStart, later.symm, h.started, h.lineEnded, h.closed⟩
    exact h.note t'.kind

theorem finish (kinds : ShowsKind view) (h : l.Abreast view l') :
    view l.finish.1.shown = view l'.finish.1.shown ∧ l.finish.2.Abreast view l'.finish.2 := by
  rw [finish_eq, finish_eq]
  have closing : l.closing.Abreast view l'.closing := by
    obtain ⟨levels, brackets, atLineStart, pending, started, lineEnded, closed⟩ := h
    unfold Lexer.closing
    rw [closed]
    split
    · next closed' => exact ⟨levels, brackets, atLineStart, pending, started, lineEnded, closed⟩
    · refine ⟨rfl, brackets, atLineStart, ?_, started, lineEnded, rfl⟩
      dsimp only
      rw [started, lineEnded, levels, List.map_append, List.map_append, List.map_map, List.map_map]
      congr 1
      split <;> rfl
  obtain ⟨none, none'⟩ | ⟨t, t', m, m', some, some', same, abreast⟩ := closing.takePending kinds
  · rw [none, none']
    exact ⟨rfl, closing⟩
  · rw [some, some']
    exact ⟨same, abreast⟩

theorem meet (kinds : ShowsKind view) (h : l.Abreast view l') {x x' : Ahead}
    (alike : Ahead.Alike view R x x') :
    (l.meet x).1.map (view ∘ Token.shown) = (l'.meet x').1.map (view ∘ Token.shown) ∧
      (l.meet x).2.Abreast view (l'.meet x').2 := by
  cases alike with
  | nothing =>
    obtain ⟨same, abreast⟩ := h.finish kinds
    exact ⟨congrArg Option.some same, abreast⟩
  | lineEnd =>
    rw [Lexer.meet, Lexer.meet, h.begun]
    split
    · exact ⟨rfl, h.levels, h.brackets, rfl, h.pending, h.started, rfl, h.closed⟩
    · exact ⟨rfl, h.levels, h.brackets, rfl, h.pending, h.started, h.lineEnded, h.closed⟩
  | @lexeme lexeme lexeme' _ _ same =>
    have kind : lexeme.kind = lexeme'.kind := kinds _ _ same
    have moved : (l.advance lexeme.length).Abreast view (l'.advance lexeme'.length) :=
      ⟨h.levels, h.brackets, h.atLineStart, h.pending, h.started, h.lineEnded, h.closed⟩
    refine ⟨congrArg Option.some same, ?_⟩
    rw [Lexer.meet, Lexer.meet, kind]
    exact moved.note lexeme'.kind

/-- Reading keeps two lexers abreast, if what stands behind the gap goes together. -/
theorem read (kinds : ShowsKind view) (h : m.Abreast view m')
    (together : R m.cursor.rest m'.cursor.rest)
    (ahead : m.pending = [] → Ahead.Alike view R
      (.ofList (afterGap (m.brackets != 0) false m.cursor.rest))
      (.ofList (afterGap (m.brackets != 0) false m'.cursor.rest))) :
    m.read.1.map (view ∘ Token.shown) = m'.read.1.map (view ∘ Token.shown) ∧
      m.read.2.Abreast view m'.read.2 ∧ R m.read.2.cursor.rest m'.read.2.cursor.rest := by
  obtain ⟨none, none'⟩ | ⟨t, t', n, n', some, some', same, abreast⟩ := h.takePending kinds
  · have pastGap : m.pastGap.Abreast view m'.pastGap :=
      ⟨h.levels, h.brackets, h.atLineStart, h.pending, h.started, h.lineEnded, h.closed⟩
    have ahead := ahead (takePending_eq_none.1 none)
    rw [← rest_pastGap, h.brackets, ← rest_pastGap] at ahead
    rw [read_of_none none, read_of_none none', rest_stepHere, rest_stepHere, stepHere_eq,
      stepHere_eq]
    generalize Ahead.ofList m.pastGap.cursor.rest = x at ahead
    generalize Ahead.ofList m'.pastGap.cursor.rest = x' at ahead
    have met := pastGap.meet kinds ahead
    exact ⟨met.1, met.2, ahead.rest⟩
  · rw [read_of_some some, read_of_some some', cursor_of_takePending some,
      cursor_of_takePending some']
    exact ⟨congrArg Option.some same, abreast, together⟩

/-- **A step of each keeps two lexers abreast**, whose texts go together. -/
theorem step (kinds : ShowsKind view) (keeps : Keeps view R) (h : l.Abreast view l')
    (together : R l.cursor.rest l'.cursor.rest) :
    l.step.1.map (view ∘ Token.shown) = l'.step.1.map (view ∘ Token.shown) ∧
      l.step.2.Abreast view l'.step.2 ∧ R l.step.2.cursor.rest l'.step.2.cursor.rest := by
  obtain ⟨abreast, together⟩ := h.measured (fun _ => together) fun _ => keeps.line together
  rw [step_eq_read, step_eq_read]
  exact abreast.read kinds together fun _ => keeps.ahead together _

end Abreast

/-! ## Up to the end of the input -/

/-- The lexer reads these tokens; the last one is the end of the input. -/
inductive Yields : Lexer → List Token → Prop
  | silent {l l' : Lexer} {ts : List Token} (step : l.step = (none, l')) (rest : Yields l' ts) :
      Yields l ts
  | token {l l' : Lexer} {t : Token} {ts : List Token} (step : l.step = (some t, l'))
      (inner : t.kind ≠ .mark .endOfInput) (rest : Yields l' ts) : Yields l (t :: ts)
  | last {l l' : Lexer} {t : Token} (step : l.step = (some t, l'))
      (ends : t.kind = .mark .endOfInput) : Yields l [t]

theorem Runs.yields {ts us : List Token} (h : l.Runs ts m) (rest : m.Yields us) :
    l.Yields (ts ++ us) := by
  induction h with
  | nil => exact rest
  | silent step _ ih => exact .silent step (ih rest)
  | token step inner _ ih => exact .token step inner (ih rest)

theorem exists_yields (l : Lexer) : ∃ ts, l.Yields ts := by
  obtain ⟨ts, last, m, m', runs, ends, kind, -⟩ :=
    exists_runs (l.work + 1) [] l (Nat.lt_succ_self _)
  exact ⟨ts ++ [last], runs.yields (.last ends kind)⟩

/-- A lexer reads one sequence of tokens only. -/
theorem Yields.unique {ts us : List Token} (h : l.Yields ts) (h' : l.Yields us) : ts = us := by
  induction h generalizing us with
  | silent step _ ih =>
    cases h' with
    | silent step' rest =>
      cases step.symm.trans step'
      exact ih rest
    | token step' | last step' => cases step.symm.trans step'
  | token step inner _ ih =>
    cases h' with
    | silent step' => cases step.symm.trans step'
    | token step' _ rest =>
      cases step.symm.trans step'
      rw [ih rest]
    | last step' ends =>
      cases step.symm.trans step'
      exact absurd ends inner
  | last step ends =>
    cases h' with
    | silent step' => cases step.symm.trans step'
    | token step' inner =>
      cases step.symm.trans step'
      exact absurd ends inner
    | last step' =>
      cases step.symm.trans step'
      rfl

theorem yields_tokenize (source : String) : (ofList source.toList).Yields (tokenize source) := by
  obtain ⟨ts, last, m, m', runs, ends, kind, eq⟩ := exists_run source
  rw [eq]
  exact runs.yields (.last ends kind)

theorem tokenize_of_runs {cs : List Char} {ts us : List Token} (runs : (ofList cs).Runs ts l)
    (yields : l.Yields us) : tokenize (String.ofList cs) = ts ++ us := by
  have all := yields_tokenize (String.ofList cs)
  rw [String.toList_ofList] at all
  exact all.unique (runs.yields yields)

/-- Lexers whose steps stay in a relation, and look alike, read tokens that look alike. -/
theorem Yields.simulates {S : Lexer → Lexer → Prop} {ts : List Token} (h : l.Yields ts)
    (kinds : ShowsKind view)
    (go : ∀ ⦃m m' : Lexer⦄, S m m' → S m.step.2 m'.step.2 ∧
      m.step.1.map (view ∘ Token.shown) = m'.step.1.map (view ∘ Token.shown)) (start : S l l') :
    ∃ ts', l'.Yields ts' ∧
      ts.map (view ∘ Token.shown) = ts'.map (view ∘ Token.shown) := by
  induction h generalizing l' with
  | silent step _ ih =>
    obtain ⟨later, same⟩ := go start
    rw [step] at later same
    obtain ⟨ts', yields, eq⟩ := ih later
    exact ⟨ts', .silent (Prod.ext (Option.map_eq_none_iff.1 same.symm) rfl) yields, eq⟩
  | token step inner _ ih =>
    obtain ⟨later, same⟩ := go start
    rw [step] at later same
    obtain ⟨t', step', seen⟩ := Option.map_eq_some_iff.1 same.symm
    obtain ⟨ts', yields, eq⟩ := ih later
    have kind : t'.kind = _ := kinds _ _ seen
    exact ⟨t' :: ts', .token (Prod.ext step' rfl) (kind ▸ inner) yields,
      congrArg₂ List.cons seen.symm eq⟩
  | last step ends =>
    obtain ⟨-, same⟩ := go start
    rw [step] at same
    obtain ⟨t', step', seen⟩ := Option.map_eq_some_iff.1 same.symm
    have kind : t'.kind = _ := kinds _ _ seen
    exact ⟨[t'], .last (Prod.ext step' rfl) (kind.trans ends), congrArg (fun b => [b]) seen.symm⟩

/-- **Lexers that are abreast read tokens that look alike**, if their texts go on together. -/
theorem Yields.abreast {ts : List Token} (h : l.Yields ts) (kinds : ShowsKind view)
    (keeps : Keeps view R) (abreast : l.Abreast view l')
    (together : R l.cursor.rest l'.cursor.rest) :
    ∃ ts', l'.Yields ts' ∧
      ts.map (view ∘ Token.shown) = ts'.map (view ∘ Token.shown) := by
  refine h.simulates kinds (S := fun m m' => m.Abreast view m' ∧ R m.cursor.rest m'.cursor.rest)
    (fun m m' ⟨abreast, together⟩ => ?_) ⟨abreast, together⟩
  obtain ⟨same, later⟩ := abreast.step kinds keeps together
  exact ⟨later, same⟩

/-- Sources that go on together have tokens that look alike. -/
theorem map_tokenize (kinds : ShowsKind view) (keeps : Keeps view R) {source source' : String}
    (together : R source.toList source'.toList) :
    (tokenize source).map (view ∘ Token.shown) = (tokenize source').map (view ∘ Token.shown) := by
  have abreast : (ofList source.toList).Abreast view (ofList source'.toList) :=
    Abreast.moved (ofList source'.toList) _
  obtain ⟨ts, yields, eq⟩ := (yields_tokenize source).abreast kinds keeps abreast together
  rw [eq, yields.unique (yields_tokenize source')]

end Lexer

end Token

end SheetScript
