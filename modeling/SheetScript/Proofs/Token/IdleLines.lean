import Mathlib.Data.List.Basic
import SheetScript.Proofs.Token.Abreast

/-!
# Lines that hold nothing

A line of blanks, perhaps with a comment, can be inserted wherever a line starts. Where a line is
measured, the blanks of a margin are passed; all other blanks are passed only behind that.

* What stands behind whole lines is not looked at within them: `nextLine_whole`, `afterGap_whole`
  and `Lexeme.ofCons_whole` say so of the three ways to look ahead. By induction on the steps, two
  texts that share whole lines are read alike up to the end of these (`Lexer.Runs.differ`).
  `Lexer.left` tells the place: what is left there is more than what is left anywhere behind it.
* `Lexer.Sound.pass` passes lines that hold nothing: a `BlankLine.Plain` one is not measured, and
  one that is as far in as the last line leads to no token.
* `shown_withBlankLines` puts the two together.

A line with another blank at its front counts as one that is further in or further out
(`exists_blank_line_shown`).
-/

namespace SheetScript.Token

variable {c quote : Char} {cs rest front : List Char}

theorem Skips.length_le (h : Skips cs rest) : rest.length ≤ cs.length := by
  induction h with
  | here => exact Nat.le_refl _
  | blank _ _ ih => exact Nat.le_succ_of_le ih
  | continuation _ ih => exact Nat.le_succ_of_le (Nat.le_succ_of_le ih)
  | comment _ _ _ ih =>
    rw [List.length_cons, List.length_append]
    omega

/-! ## Whole lines -/

/-- The characters end with the end of a line. -/
def Whole (cs : List Char) : Prop := cs.getLast? = some '\n'

instance (cs : List Char) : Decidable (Whole cs) := inferInstanceAs (Decidable (_ = _))

theorem whole_cons : Whole (c :: cs) ↔ c = '\n' ∧ cs = [] ∨ Whole cs := by
  cases cs with
  | nil => simp [Whole]
  | cons d cs => simp [Whole]

theorem whole_append (some : cs ≠ []) : Whole (front ++ cs) ↔ Whole cs := by
  rw [Whole, Whole, List.getLast?_append_of_ne_nil _ some]

theorem Whole.tail (h : Whole (c :: cs)) (inline : c ≠ '\n') : Whole cs :=
  (whole_cons.1 h).resolve_left fun last => inline last.1

theorem afterGap_whole_cons {bracketed comment : Bool} (h : Whole (c :: front)) (no_end : c ≠ '\n')
    (no_continuation : ∀ next, c = '\\' → front = '\n' :: next → False) (rest : List Char) :
    afterGap bracketed comment (c :: front ++ rest) =
      if comment || c == '#' then afterGap bracketed true (front ++ rest)
      else if Text.isBlank c then afterGap bracketed false (front ++ rest)
      else c :: front ++ rest := by
  refine afterGap_cons no_end fun next slash eq => ?_
  cases front with
  | nil => exact no_end (Option.some.inj h)
  | cons d front =>
    obtain rfl : d = '\n' := (List.cons.inj eq).1
    exact no_continuation front slash rfl

/-- Behind whole lines the next line is looked for anew, unless it starts in them. -/
theorem nextLine_whole (h : Whole front) (width : Nat) (comment : Bool) :
    (∀ rest, nextLine width comment (front ++ rest) = nextLine 0 false rest) ∨
      ∃ width' line, Whole line ∧
        ∀ rest, nextLine width comment (front ++ rest) = some (width', line ++ rest) := by
  induction front generalizing width comment with
  | nil => cases h
  | cons c front ih =>
    by_cases feed : c = '\n'
    · subst feed
      obtain ⟨-, rfl⟩ | whole := whole_cons.1 h
      · exact .inl fun _ => rfl
      · exact ih whole 0 false
    · have cons : ∀ rest, nextLine width comment (c :: front ++ rest) =
          if comment || c == '#' then nextLine width true (front ++ rest)
          else if inMargin c then nextLine (widen width c) false (front ++ rest)
          else some (width, c :: front ++ rest) := fun rest => by
        rw [List.cons_append, nextLine]
        exact feed
      simp only [cons]
      split
      · exact ih (h.tail feed) width true
      · split
        · exact ih (h.tail feed) _ false
        · exact .inr ⟨width, c :: front, h, fun _ => rfl⟩

/-- Behind whole lines a gap goes on, unless it ends in them. -/
theorem afterGap_whole (h : Whole front) (bracketed comment : Bool) :
    (∀ rest, afterGap bracketed comment (front ++ rest) = afterGap bracketed false rest) ∨
      ∃ left, Whole left ∧ ∀ rest, afterGap bracketed comment (front ++ rest) = left ++ rest := by
  fun_induction afterGap bracketed comment front with
  | case1 => cases h
  | case2 comment front inside ih =>
    simp only [List.cons_append, afterGap, if_pos inside]
    obtain ⟨-, rfl⟩ | whole := whole_cons.1 h
    · exact .inl fun _ => rfl
    · exact ih whole
  | case3 comment front outside =>
    simp only [List.cons_append, afterGap, if_neg outside]
    exact .inr ⟨_, h, fun _ => rfl⟩
  | case4 front inside ih =>
    simp only [List.cons_append, afterGap, if_pos inside, if_true]
    obtain ⟨-, rfl⟩ | whole := whole_cons.1 (h.tail (by decide))
    · exact .inl fun _ => rfl
    · exact ih whole
  | case5 front outside =>
    simp only [List.cons_append, afterGap, if_neg outside, if_true]
    exact .inr ⟨_, h.tail (by decide), fun _ => rfl⟩
  | case6 comment front outer ih =>
    simp only [List.cons_append, afterGap, if_neg outer]
    obtain ⟨-, rfl⟩ | whole := whole_cons.1 (h.tail (by decide))
    · exact .inl fun _ => rfl
    · exact ih whole
  | case7 comment c front no_end no_continuation starts ih =>
    simp only [afterGap_whole_cons h no_end no_continuation, if_pos starts]
    exact ih (h.tail no_end)
  | case8 comment c front no_end no_continuation outside blank ih =>
    simp only [afterGap_whole_cons h no_end no_continuation, if_neg outside, if_pos blank]
    exact ih (h.tail no_end)
  | case9 comment c front no_end no_continuation outside some =>
    simp only [afterGap_whole_cons h no_end no_continuation, if_neg outside, if_neg some]
    exact .inr ⟨_, h, fun _ => rfl⟩

namespace Lexeme

/-- Behind whole lines a string goes on, unless it ends in them. -/
theorem bodyFrom_whole (isQuote : quote = '"' ∨ quote = '\'') (h : Whole front)
    (before : List Char) (length : Nat) :
    (∃ before', ∀ rest, bodyFrom quote before length (front ++ rest) =
        bodyFrom quote before' (length + front.length) rest) ∨
      ∃ body taken left, Whole left ∧ body.length = length + taken ∧ ∀ rest,
        bodyFrom quote before length (front ++ rest) = body ∧
          (front ++ rest).drop taken = left ++ rest := by
  have others : ∀ c ∈ ['\\', '\n'], quote ≠ c := by
    obtain rfl | rfl := isQuote <;> exact List.all_iff_forall_prop.1 (by decide)
  fun_induction bodyFrom quote before length front with
  | case1 => cases h
  | case2 => cases h
  | case3 before length c front ih =>
    simp only [List.cons_append, bodyFrom, List.length_cons]
    obtain ⟨-, rfl⟩ | whole := whole_cons.1 (h.tail (by decide))
    · exact .inl ⟨_, fun _ => rfl⟩
    · obtain ⟨before', goes⟩ | ⟨body, taken, left, whole, eq, ends⟩ := ih whole
      · exact .inl ⟨before', fun rest => by rw [goes]; congr 1; omega⟩
      · exact .inr ⟨body, taken + 2, left, whole, by omega, ends⟩
  | case4 before length c front _ _ closes =>
    have no_escape : c ≠ '\\' := beq_iff_eq.1 closes ▸ others '\\' (by simp)
    have inline : c ≠ '\n' := beq_iff_eq.1 closes ▸ others '\n' (by simp)
    simp only [List.cons_append, bodyFrom_cons before length no_escape, if_pos closes]
    exact .inr ⟨_, 1, front, h.tail inline, rfl, fun _ => ⟨rfl, rfl⟩⟩
  | case5 before length c front _ _ open_quote ends =>
    have no_escape : c ≠ '\\' := by
      rw [beq_iff_eq.1 ends]
      decide
    simp only [List.cons_append, bodyFrom_cons before length no_escape, if_neg open_quote,
      if_pos ends]
    exact .inr ⟨_, 0, c :: front, h, rfl, fun _ => ⟨rfl, rfl⟩⟩
  | case6 before length c front last escapes open_quote inline ih =>
    have no_escape : c ≠ '\\' := fun slash => by
      cases front with
      | nil => exact last slash rfl
      | cons d front => exact escapes d front slash rfl
    simp only [List.cons_append, bodyFrom_cons before length no_escape, if_neg open_quote,
      if_neg inline, List.length_cons]
    obtain ⟨before', goes⟩ | ⟨body, taken, left, whole, eq, ends⟩ :=
      ih (h.tail fun feed => inline (beq_iff_eq.2 feed))
    · exact .inl ⟨before', fun rest => by rw [goes]; congr 1; omega⟩
    · exact .inr ⟨body, taken + 1, left, whole, by omega, ends⟩

theorem string_congr {cs' : List Char} (h : bodyFrom quote [] 0 cs = bodyFrom quote [] 0 cs') :
    string quote cs = string quote cs' := by
  unfold string
  rw [h]

/-- A lexeme goes beyond whole lines, or it ends in them. -/
theorem ofCons_whole (h : Whole front) (c : Char) :
    (∀ rest, front.length < (ofCons c (front ++ rest)).length) ∨
      ∃ lexeme left, Whole left ∧ ∀ rest, ofCons c (front ++ rest) = lexeme ∧
        (c :: (front ++ rest)).drop lexeme.length = left ++ rest := by
  by_cases isQuote : c = '"' ∨ c = '\''
  · simp only [ofCons_quote isQuote]
    obtain ⟨before, goes⟩ | ⟨body, taken, left, whole, eq, ends⟩ :=
      bodyFrom_whole isQuote h [] 0
    · refine .inl fun rest => ?_
      obtain ⟨taken, eq, -⟩ := exists_escapes c before (0 + front.length) rest
      rw [length_string, goes, eq]
      omega
    · refine .inr ⟨string c (front ++ []), left, whole, fun rest => ⟨string_congr ?_, ?_⟩⟩
      · rw [(ends rest).1, (ends []).1]
      · rw [length_string, (ends []).1, eq, Nat.zero_add, List.drop_succ_cons]
        exact (ends rest).2
  · obtain ⟨line, behind, rfl, inner, starts⟩ := exists_line front
    have some : behind ≠ [] := by
      rintro rfl
      rw [List.append_nil] at h
      exact inner (List.mem_of_getLast? h)
    have whole : Whole behind := (whole_append some).1 h
    have lineEnd : ∀ rest, AtLineEnd (behind ++ rest) := fun rest d mem => by
      obtain ⟨e, behind, rfl⟩ := List.exists_cons_of_ne_nil some
      obtain rfl := Option.some.inj mem
      exact .inl (starts e rfl)
    refine .inr ⟨ofCons c line, (c :: line).drop (ofCons c line).length ++ behind,
      (whole_append some).2 whole, fun rest => ?_⟩
    have lexeme : ofCons c (line ++ (behind ++ rest)) = ofCons c line :=
      ofCons_line isQuote (lineEnd rest)
    have taken : (c :: (line ++ (behind ++ rest))).drop (ofCons c _).length = _ :=
      drop_ofCons_line isQuote (lineEnd rest)
    rw [lexeme] at taken
    rw [List.append_assoc, List.append_assoc]
    exact ⟨lexeme, taken⟩

end Lexeme

/-! ## What is left to read -/

/-- Twice the characters ahead, and one more where a line is to be measured. -/
def Lexer.left (l : Lexer) : Nat := 2 * l.cursor.rest.length + if l.atLineStart then 1 else 0

/-- What is left behind what stands at the front. -/
def Ahead.left : Ahead → Nat
  | nothing => 0
  | lineEnd rest => 2 * rest.length + 1
  | lexeme _ rest => 2 * rest.length

theorem Ahead.left_ofList (cs : List Char) : (ofList cs).left ≤ 2 * cs.length := by
  unfold ofList
  split
  · exact Nat.zero_le _
  · exact Nat.le_succ _
  · rw [left, List.length_drop]
    omega

theorem length_afterGap (bracketed comment : Bool) (cs : List Char) :
    (afterGap bracketed comment cs).length ≤ cs.length := by
  obtain ⟨taken, -, left⟩ := drop_gapLength bracketed 0 comment cs
  rw [← left, List.length_drop]
  exact Nat.sub_le _ _

/-- Two texts that are the same lines and then differ. -/
def Differ (behind behind' cs cs' : List Char) : Prop :=
  ∃ lines, Whole lines ∧ cs = lines ++ behind ∧ cs' = lines ++ behind'

/-- Two texts that differ, perhaps from the start. -/
def Differ₀ (behind behind' cs cs' : List Char) : Prop :=
  cs = behind ∧ cs' = behind' ∨ Differ behind behind' cs cs'

/-- Behind whole lines the same stands, or what stands there leaves less than what follows them. -/
theorem ahead_whole (h : Whole front) (bracketed : Bool) (behind behind' : List Char) :
    (Ahead.ofList (afterGap bracketed false (front ++ behind))).left ≤ 2 * behind.length ∨
      Ahead.Alike id (Differ₀ behind behind')
        (.ofList (afterGap bracketed false (front ++ behind)))
        (.ofList (afterGap bracketed false (front ++ behind'))) := by
  obtain goes | ⟨left, whole, ends⟩ := afterGap_whole h bracketed false
  · left
    rw [goes]
    exact Nat.le_trans (Ahead.left_ofList _) (Nat.mul_le_mul_left 2 (length_afterGap _ _ _))
  · rw [ends, ends]
    cases left with
    | nil => cases whole
    | cons c left =>
      by_cases feed : c = '\n'
      · subst feed
        refine .inr (.lineEnd ?_)
        obtain ⟨-, rfl⟩ | whole := whole_cons.1 whole
        · exact .inl ⟨rfl, rfl⟩
        · exact .inr ⟨left, whole, rfl, rfl⟩
      · have ofList : ∀ rest, Ahead.ofList (c :: left ++ rest) =
            .lexeme (Lexeme.ofCons c (left ++ rest))
              ((c :: (left ++ rest)).drop (Lexeme.ofCons c (left ++ rest)).length) := by
          intro rest
          rw [List.cons_append, Ahead.ofList]
          exact feed
        rw [ofList, ofList]
        obtain beyond | ⟨lexeme, left', whole', ends⟩ := Lexeme.ofCons_whole (whole.tail feed) c
        · left
          have beyond := beyond behind
          rw [Ahead.left, List.length_drop, List.length_cons, List.length_append]
          omega
        · obtain ⟨same, rest⟩ := ends behind
          obtain ⟨same', rest'⟩ := ends behind'
          rw [same, same', rest, rest']
          exact .inr (.lexeme rfl (.inr ⟨left', whole', rfl, rfl⟩))

namespace Lexer

variable {l l' m m' : Lexer} {levels : Nat} {begun : Bool} {ts : List Token}

theorem atLineStart_of_takePending {t : Token} (h : l.takePending = some (t, m)) :
    m.atLineStart = l.atLineStart := by
  unfold takePending at h
  split at h
  · cases h
  · cases h
    exact note_atLineStart _ _

theorem atLineStart_finish (l : Lexer) : l.finish.2.atLineStart = l.atLineStart := by
  have closing : l.closing.atLineStart = l.atLineStart := by
    unfold Lexer.closing
    split <;> rfl
  rw [finish_eq]
  cases pending : l.closing.takePending with
  | none => exact closing
  | some r => exact (atLineStart_of_takePending pending).trans closing

/-- A line starts where a line end has been read only. -/
theorem atLineStart_meet (no_start : l.atLineStart = false) (x : Ahead) :
    (l.meet x).2.atLineStart = true ↔ ∃ rest, x = .lineEnd rest := by
  cases x with
  | nothing =>
    rw [meet, atLineStart_finish, no_start]
    refine ⟨fun start => absurd start Bool.false_ne_true, ?_⟩
    rintro ⟨_, eq⟩
    cases eq
  | lineEnd rest =>
    rw [meet]
    split <;> exact ⟨fun _ => ⟨rest, rfl⟩, fun _ => rfl⟩
  | lexeme lexeme rest =>
    rw [meet, note_atLineStart]
    refine ⟨fun start => absurd (no_start.symm.trans start) Bool.false_ne_true, ?_⟩
    rintro ⟨_, eq⟩
    cases eq

theorem left_of_takePending {t : Token} (no_start : m.atLineStart = false)
    (pending : m.takePending = some (t, l)) : m.read.2.left = 2 * m.cursor.rest.length := by
  rw [read_of_some pending, left, cursor_of_takePending pending,
    atLineStart_of_takePending pending, no_start]
  rfl

theorem left_of_ahead (no_start : m.atLineStart = false) (none : m.takePending = none) :
    m.read.2.left =
      (Ahead.ofList (afterGap (m.brackets != 0) false m.cursor.rest)).left := by
  have start : m.pastGap.atLineStart = false := no_start
  rw [read_of_none none, left, rest_stepHere, stepHere_eq, rest_pastGap]
  generalize Ahead.ofList _ = x
  have starts := atLineStart_meet start x
  cases x with
  | lineEnd rest => rw [if_pos (starts.2 ⟨rest, rfl⟩)]; rfl
  | nothing | lexeme => rw [if_neg (mt starts.1 nofun)]; rfl

/-- What is left does not grow, and it gets less where a line is measured. -/
theorem left_read (no_start : m.atLineStart = false) :
    m.read.2.left ≤ 2 * m.cursor.rest.length := by
  cases pending : m.takePending with
  | some r => exact Nat.le_of_eq (left_of_takePending no_start pending)
  | none =>
    rw [left_of_ahead no_start pending]
    exact Nat.le_trans (Ahead.left_ofList _) (Nat.mul_le_mul_left 2 (length_afterGap _ _ _))

theorem Sound.left_step {r : Option Token} (h : l.Sound levels begun) (step : l.step = (r, l')) :
    l'.left ≤ 2 * l.measured.cursor.rest.length := by
  have less := left_read (h.measured (measured_measured l)).2
  rw [← step_eq_read, step] at less
  exact less

theorem Sound.next {r : Option Token} (h : l.Sound levels begun) (step : l.step = (r, l'))
    (inner : ∀ t ∈ r, t.kind ≠ .mark .endOfInput) : ∃ levels begun, l'.Sound levels begun := by
  have goes := h.step
  rw [step] at goes
  cases r with
  | none => exact ⟨levels, begun, goes⟩
  | some t =>
    obtain ⟨ends, -⟩ | ⟨levels', begun', -, sound⟩ := goes
    · exact absurd ends (inner t rfl)
    · exact ⟨levels', begun', sound⟩

theorem length_le_left (l : Lexer) : 2 * l.cursor.rest.length ≤ l.left := Nat.le_add_right _ _

/-- A lexer that goes on leaves no more than what was ahead. -/
theorem Sound.left_runs (h : l.Sound levels begun) (runs : l.Runs ts m) : m.left ≤ l.left := by
  have goes : ∀ {l l' : Lexer} {r : Option Token} {levels : Nat} {begun : Bool},
      l.Sound levels begun → l.step = (r, l') → l'.left ≤ l.left := by
    intro l l' r levels begun sound step
    have less := sound.left_step step
    have shorter := (measured_measured l).length_le
    have ahead := l.length_le_left
    omega
  induction runs generalizing levels begun with
  | nil => exact Nat.le_refl _
  | silent step _ ih =>
    obtain ⟨_, _, sound⟩ := h.next step nofun
    exact Nat.le_trans (ih sound) (goes h step)
  | token step inner _ ih =>
    obtain ⟨_, _, sound⟩ := h.next step fun t mem => Option.some.inj mem ▸ inner
    exact Nat.le_trans (ih sound) (goes h step)

theorem rest_measureLine (l : Lexer) : l.measureLine.cursor.rest = l.atText.cursor.rest := by
  by_cases ended : l.atText.cursor.rest = []
  · rw [measureLine_of_nil ended]
  · rw [measureLine_of_ne_nil ended, rest_indentTo]

/-- Where the next line of two texts is looked for behind the same lines, it is the same in both, or
what is ahead of it stands behind them. -/
theorem Abreast.measured_differ {behind behind' : List Char} (abreast : l.Abreast id l')
    (differ : Differ behind behind' l.cursor.rest l'.cursor.rest) :
    l.measured.cursor.rest.length ≤ behind.length ∨ l.measured.Abreast id l'.measured ∧
      Differ behind behind' l.measured.cursor.rest l'.measured.cursor.rest := by
  by_cases starts : l.Starts
  · obtain ⟨lines, whole, eq, eq'⟩ := differ
    obtain goes | ⟨width, line, whole, goes⟩ := nextLine_whole whole 0 false
    · left
      rw [measured_of_starts starts, rest_measureLine]
      have found := l.nextLine_rest
      rw [eq, goes] at found
      split at found
      · next ended =>
        rw [ended]
        exact Nat.zero_le _
      · exact (skips_nextLine found).length_le
    · right
      refine abreast.measured (absurd starts) fun _ => ?_
      rw [eq, eq', goes, goes]
      exact .some ⟨line, whole, rfl, rfl⟩
  · exact .inr (abreast.measured (fun _ => differ) fun start => absurd start starts)

/-- A step in lines that two texts share is the same, or it leaves less than what follows them. -/
theorem Sound.step_differ {behind behind' : List Char} {r : Option Token}
    (h : l.Sound levels begun) (abreast : l.Abreast id l')
    (differ : Differ₀ behind behind' l.cursor.rest l'.cursor.rest) (step : l.step = (r, m)) :
    m.left ≤ 2 * behind.length ∨
      r.map Token.shown = l'.step.1.map Token.shown ∧ m.Abreast id l'.step.2 ∧
        Differ₀ behind behind' m.cursor.rest l'.step.2.cursor.rest := by
  have less := h.left_step step
  obtain ⟨here, -⟩ | differ := differ
  · have shorter := (measured_measured l).length_le
    rw [here] at shorter
    omega
  · obtain shorter | ⟨abreast, differ⟩ := abreast.measured_differ differ
    · omega
    · have no_start : l.measured.atLineStart = false := (h.measured (measured_measured l)).2
      have found : m.left ≤ 2 * behind.length ∨
          (l.measured.pending = [] → Ahead.Alike id (Differ₀ behind behind')
            (.ofList (afterGap (l.measured.brackets != 0) false l.measured.cursor.rest))
            (.ofList (afterGap (l.measured.brackets != 0) false l'.measured.cursor.rest))) := by
        obtain ⟨lines, whole, eq, eq'⟩ := differ
        by_cases none : l.measured.pending = []
        · have left := left_of_ahead no_start (takePending_eq_none.2 none)
          rw [← step_eq_read, step] at left
          rw [left, eq, eq']
          exact (ahead_whole whole _ behind behind').imp_right fun alike _ => alike
        · exact .inr fun no => absurd no none
      refine found.imp_right fun alike => ?_
      have goes := abreast.read (fun _ _ same => congrArg Prod.fst same) (.inr differ) alike
      rw [← step_eq_read, ← step_eq_read, step] at goes
      exact goes

/-- **What stands behind a line start is not looked at before.** -/
theorem Runs.differ {behind behind' : List Char} (runs : l.Runs ts m)
    (sound : l.Sound levels begun) (abreast : l.Abreast id l')
    (differ : Differ₀ behind behind' l.cursor.rest l'.cursor.rest)
    (start : m.atLineStart = true) (rest : m.cursor.rest = behind) :
    ∃ ts' m', l'.Runs ts' m' ∧ ts.map Token.shown = ts'.map Token.shown ∧ m.Abreast id m' ∧
      m'.cursor.rest = behind' := by
  have left : m.left = 2 * behind.length + 1 := by
    rw [Lexer.left, rest, start]
    rfl
  induction runs generalizing levels begun l' with
  | nil l =>
    obtain ⟨-, eq⟩ | ⟨lines, whole, eq, -⟩ := differ
    · exact ⟨[], l', .nil l', rfl, abreast, eq⟩
    · have none : lines = [] := List.append_left_eq_self.1 (eq.symm.trans rest)
      rw [none] at whole
      cases whole
  | silent step later ih =>
    obtain ⟨_, _, sound'⟩ := sound.next step nofun
    obtain less | ⟨same, abreast, differ⟩ := sound.step_differ abreast differ step
    · have more := sound'.left_runs later
      omega
    · obtain ⟨ts', m', runs, eq, abreast, rest⟩ := ih sound' abreast differ start rest left
      have step' := Option.map_eq_none_iff.1 same.symm
      exact ⟨ts', m', .silent (Prod.ext step' rfl) runs, eq, abreast, rest⟩
  | token step inner later ih =>
    obtain ⟨_, _, sound'⟩ := sound.next step fun t mem => Option.some.inj mem ▸ inner
    obtain less | ⟨same, abreast, differ⟩ := sound.step_differ abreast differ step
    · have more := sound'.left_runs later
      omega
    · obtain ⟨ts', m', runs, eq, abreast, rest⟩ := ih sound' abreast differ start rest left
      obtain ⟨t', step', shown⟩ := Option.map_eq_some_iff.1 same.symm
      have kind : t'.kind = _ := congrArg Prod.fst shown
      exact ⟨t' :: ts', m', .token (Prod.ext step' rfl) (kind ▸ inner) runs,
        congrArg₂ List.cons shown.symm eq, abreast, rest⟩

end Lexer

/-! ## Lines that hold nothing -/

/-- A line of blanks, perhaps with a comment behind them. -/
structure BlankLine where
  blanks : List Char
  comment : List Char
  blank : ∀ c ∈ blanks, Text.isBlank c = true
  sign : ∀ c ∈ comment.head?, c = '#'
  inline : '\n' ∉ blanks ++ comment

namespace BlankLine

def chars (line : BlankLine) : List Char := line.blanks ++ line.comment ++ ['\n']

/-- All the blanks are such as a margin is made of. -/
def Plain (line : BlankLine) : Prop := ∀ c ∈ line.blanks, inMargin c = true

instance (line : BlankLine) : Decidable line.Plain := List.decidableBAll ..

/-- How far in the line is: the width of the margin that its blanks start with. -/
def width (line : BlankLine) : Nat := (line.blanks.takeWhile inMargin).foldl widen 0

end BlankLine

/-- A comment is passed up to the end of its line. -/
theorem nextLine_comment {text : List Char} (inline : '\n' ∉ text) (width : Nat)
    (rest : List Char) : nextLine width true (text ++ '\n' :: rest) = nextLine 0 false rest := by
  induction text generalizing width with
  | nil => rfl
  | cons c text ih =>
    rw [List.mem_cons, not_or] at inline
    rw [List.cons_append, nextLine, Bool.true_or, if_pos rfl, ih inline.2]
    exact fun feed => inline.1 feed.symm

theorem afterGap_comment {text : List Char} (inline : '\n' ∉ text) (rest : List Char) :
    afterGap false true (text ++ '\n' :: rest) = '\n' :: rest := by
  induction text with
  | nil => rfl
  | cons c text ih =>
    rw [List.mem_cons, not_or] at inline
    rw [List.cons_append]
    by_cases ends : c = '\\' ∧ text = []
    · obtain ⟨rfl, rfl⟩ := ends
      rfl
    · rw [afterGap_cons (fun feed => inline.1 feed.symm), Bool.true_or, if_pos rfl, ih inline.2]
      intro next slash eq
      cases text with
      | nil => exact ends ⟨slash, rfl⟩
      | cons d text => exact inline.2 ((List.cons.inj eq).1 ▸ List.mem_cons_self ..)

/-- A blank within a line. -/
structure Inner (c : Char) : Prop where
  blank : Text.isBlank c = true
  no_end : c ≠ '\n'

theorem Inner.no_comment (h : Inner c) : (false || c == '#') = false := by
  refine Bool.eq_false_iff.2 fun sign => ?_
  have blank := h.blank
  rw [show c = '#' from beq_iff_eq.1 sign] at blank
  exact absurd blank (by decide)

theorem afterGap_blanks {blanks : List Char} (inner : ∀ c ∈ blanks, Inner c) (rest : List Char) :
    afterGap false false (blanks ++ rest) = afterGap false false rest := by
  induction blanks with
  | nil => rfl
  | cons c blanks ih =>
    obtain ⟨h, inner⟩ := List.forall_mem_cons.1 inner
    rw [List.cons_append, afterGap_cons h.no_end, h.no_comment, if_neg Bool.false_ne_true,
      if_pos h.blank, ih inner]
    rintro next rfl
    exact absurd h.blank (by decide)

theorem nextLine_margin {blanks : List Char} (inner : ∀ c ∈ blanks, Inner c)
    (margin : ∀ c ∈ blanks, inMargin c = true) (width : Nat) (rest : List Char) :
    nextLine width false (blanks ++ rest) = nextLine (blanks.foldl widen width) false rest := by
  induction blanks generalizing width with
  | nil => rfl
  | cons c blanks ih =>
    obtain ⟨h, inner⟩ := List.forall_mem_cons.1 inner
    obtain ⟨within, margin⟩ := List.forall_mem_cons.1 margin
    rw [List.cons_append, nextLine, h.no_comment, if_neg Bool.false_ne_true, if_pos within,
      ih inner margin, List.foldl_cons]
    exact h.no_end

namespace BlankLine

variable (line : BlankLine) (rest : List Char)

theorem inner : ∀ c ∈ line.blanks, Inner c := fun c mem =>
  ⟨line.blank c mem, fun feed => line.inline (List.mem_append_left _ (feed ▸ mem))⟩

theorem comment_cases : line.comment = [] ∨ ∃ text, line.comment = '#' :: text ∧ '\n' ∉ text := by
  have inline : '\n' ∉ line.comment := fun mem => line.inline (List.mem_append_right _ mem)
  have sign := line.sign
  cases comment : line.comment with
  | nil => exact .inl rfl
  | cons c text =>
    rw [comment] at inline sign
    obtain rfl : c = '#' := sign c rfl
    exact .inr ⟨text, rfl, fun mem => inline (List.mem_cons_of_mem _ mem)⟩

theorem chars_append : line.chars ++ rest = line.blanks ++ (line.comment ++ '\n' :: rest) := by
  rw [chars, List.append_assoc, List.append_assoc]
  rfl

/-- A plain line is not measured. -/
theorem Plain.nextLine {line : BlankLine} (h : line.Plain) (rest : List Char) :
    nextLine 0 false (line.chars ++ rest) = nextLine 0 false rest := by
  rw [chars_append, nextLine_margin line.inner h]
  obtain none | ⟨text, eq, inline⟩ := line.comment_cases
  · rw [none]
    rfl
  · rw [eq]
    exact nextLine_comment inline _ rest

/-- Any other line is measured, and then it turns out to hold nothing. -/
theorem nextLine_of_not_plain {line : BlankLine} (h : ¬line.Plain) (rest : List Char) :
    ∃ text, nextLine 0 false (line.chars ++ rest) = some (line.width, text) ∧
      afterGap false false text = '\n' :: rest := by
  have split := line.blanks.takeWhile_append_dropWhile (p := inMargin)
  have inner := line.inner
  have takes : ∀ c ∈ line.blanks.takeWhile inMargin, inMargin c = true :=
    List.all_eq_true.1 List.all_takeWhile
  rw [← split, List.forall_mem_append] at inner
  refine ⟨line.blanks.dropWhile inMargin ++ (line.comment ++ '\n' :: rest), ?_, ?_⟩
  · rw [chars_append]
    nth_rewrite 1 [← split]
    rw [List.append_assoc, nextLine_margin inner.1 takes]
    cases odd : line.blanks.dropWhile inMargin with
    | nil =>
      rw [odd, List.append_nil] at split
      rw [split] at takes
      exact absurd takes h
    | cons c blanks =>
      have some : line.blanks.dropWhile inMargin ≠ [] := odd ▸ List.cons_ne_nil c blanks
      have head := List.head_dropWhile_not inMargin some
      simp only [odd, List.head_cons] at head
      rw [odd] at inner
      have h := inner.2 c (List.mem_cons_self ..)
      rw [List.cons_append, nextLine, h.no_comment, if_neg Bool.false_ne_true, head,
        if_neg Bool.false_ne_true]
      · rfl
      · exact h.no_end
  · rw [afterGap_blanks inner.2]
    obtain none | ⟨text, eq, inline⟩ := line.comment_cases
    · rw [none]
      rfl
    · rw [eq]
      exact afterGap_comment inline rest

end BlankLine

namespace Lexer

variable {l l' m : Lexer} {levels : Nat} {begun : Bool} {us : List Token}

theorem closeLevels_width (l : Lexer) : closeLevels l.width l.levels = (0, l.levels) := by
  unfold Lexer.width
  cases l.levels with
  | nil => rfl
  | cons level levels =>
    rw [closeLevels]
    exact if_neg (Nat.lt_irrefl level)

/-- A line as far in as the last one neither opens a level nor closes one. -/
theorem indentTo_width (l : Lexer) : l.indentTo l.width = { l with pending := [] } := by
  unfold indentTo
  rw [if_neg (Nat.lt_irrefl _), closeLevels_width]
  change { l with pending := [] ++ if l.width == l.width then [] else _ } = _
  rw [if_pos (beq_self_eq_true _)]
  rfl

/-- A line that holds nothing and is as far in as the last one is passed. -/
theorem Sound.step_line {line : BlankLine} {rest : List Char} (h : l.Sound levels begun)
    (starts : l.Starts) (odd : ¬line.Plain) (width : line.width = l.width)
    (ahead : l.cursor.rest = line.chars ++ rest) :
    ∃ m, l.step = (none, m) ∧ m.Abreast id l ∧ m.cursor.rest = rest := by
  obtain ⟨none, start, outside⟩ := starts
  obtain ⟨text, found, gap⟩ := BlankLine.nextLine_of_not_plain odd rest
  rw [← ahead, nextLine_rest] at found
  split at found
  · cases found
  · next some =>
    obtain ⟨margin, text⟩ := Prod.mk.inj (Option.some.inj found)
    have measured : l.measured = l.atText := by
      rw [measured_of_starts ⟨none, start, outside⟩, measureLine_of_ne_nil some, margin, width]
      refine (indentTo_width l.atText).trans ?_
      rw [← none]
      rfl
    have past : l.atText.pastGap.cursor.rest = '\n' :: rest := by
      rw [rest_pastGap, text, show l.atText.brackets = 0 from outside]
      exact gap
    have pending : l.atText.takePending = .none := takePending_eq_none.2 none
    have idle : l.atText.pastGap.begun = false := h.line.trans (h.start start).1
    refine ⟨{ l.atText.pastGap.advance 1 with atLineStart := true }, ?_, ?_, ?_⟩
    · rw [step_eq_read, measured, read_of_none pending, stepHere_eq, past]
      exact if_neg (Bool.eq_false_iff.1 idle)
    · exact ⟨rfl, rfl, start.symm, rfl, rfl, rfl, rfl⟩
    · exact (rest_advance l.atText.pastGap 1).trans (by rw [past]; rfl)

theorem linesAlike_refl (line : Option (Nat × List Char)) : LinesAlike Eq line line := by
  cases line with
  | none => exact .none rfl
  | some found => exact .some rfl

theorem alike_refl (x : Ahead) : Ahead.Alike id Eq x x := by
  cases x with
  | nothing => exact .nothing rfl
  | lineEnd rest => exact .lineEnd rfl
  | lexeme lexeme rest => exact .lexeme rfl rfl

/-- Two lexers have the same ahead, but for lines that are not measured where one is to be
measured. -/
structure Level (l l' : Lexer) : Prop where
  abreast : l.Abreast id l'
  rest : ¬l.Starts → l.cursor.rest = l'.cursor.rest
  line : l.Starts → nextLine 0 false l.cursor.rest = nextLine 0 false l'.cursor.rest

theorem Abreast.level (h : l.Abreast id l') (same : l.cursor.rest = l'.cursor.rest) :
    l.Level l' :=
  ⟨h, fun _ => same, fun _ => congrArg _ same⟩

theorem showsKind_id : ShowsKind id := fun _ _ => congrArg Prod.fst

theorem Level.step (h : l.Level l') : l.step.2.Level l'.step.2 ∧
    l.step.1.map (id ∘ Token.shown) = l'.step.1.map (id ∘ Token.shown) := by
  obtain ⟨abreast, same⟩ := h.abreast.measured (R := Eq) h.rest fun starts => by
    rw [h.line starts]
    exact linesAlike_refl _
  obtain ⟨shown, abreast, same⟩ := abreast.read showsKind_id same fun _ => by
    rw [same]
    exact alike_refl _
  rw [← step_eq_read, ← step_eq_read] at shown abreast same
  exact ⟨abreast.level same, shown⟩

theorem Yields.level (h : l.Yields us) (level : l.Level l') :
    ∃ us', l'.Yields us' ∧ us.map Token.shown = us'.map Token.shown :=
  h.simulates showsKind_id (fun _ _ => Level.step) level

/-- **Lines that hold nothing are passed**, if each is plain or as far in as the last line. -/
theorem Sound.pass {behind : List Char} {lines : List BlankLine} (h : l.Sound levels begun)
    (starts : l.Starts) (idle : ∀ line ∈ lines, line.Plain ∨ line.width = l.width)
    (ahead : l.cursor.rest = lines.flatMap BlankLine.chars ++ behind) :
    ∃ m : Lexer, m.Abreast id l ∧ m.cursor.rest = behind ∧ ∀ us, m.Yields us →
      ∃ us', l.Yields us' ∧ us.map Token.shown = us'.map Token.shown := by
  induction lines generalizing l levels begun with
  | nil => exact ⟨l, .moved l _, ahead, fun us yields => ⟨us, yields, rfl⟩⟩
  | cons line lines ih =>
    rw [List.flatMap_cons, List.append_assoc] at ahead
    obtain ⟨first, later⟩ := List.forall_mem_cons.1 idle
    by_cases plain : line.Plain
    · have past : (l.advance line.chars.length).Abreast id l := .moved l _
      have rest : (l.advance line.chars.length).cursor.rest =
          lines.flatMap BlankLine.chars ++ behind := by
        rw [rest_advance, ahead, List.drop_left]
      obtain ⟨m, abreast, here, yields⟩ := ih (h.advance _) starts later rest
      refine ⟨m, abreast.trans past, here, fun us goes => ?_⟩
      obtain ⟨us₁, goes, same⟩ := yields us goes
      have level : (l.advance line.chars.length).Level l :=
        ⟨past, absurd starts, fun _ => by rw [rest, ahead, plain.nextLine]⟩
      obtain ⟨us₂, goes, same'⟩ := goes.level level
      exact ⟨us₂, goes, same.trans same'⟩
    · obtain ⟨l', step, abreast', rest⟩ :=
        h.step_line starts plain (first.resolve_left plain) ahead
      have sound := h.step
      rw [step] at sound
      have width : l'.width = l.width := by rw [width, width, abreast'.levels]
      obtain ⟨m, abreast, here, yields⟩ :=
        ih sound (abreast'.starts.2 starts) (width ▸ later) rest
      refine ⟨m, abreast.trans abreast', here, fun us goes => ?_⟩
      obtain ⟨us', goes, same⟩ := yields us goes
      exact ⟨us', .silent step goes, same⟩

end Lexer

/-! ## The tokens of a source -/

/-- A source is split where a line starts: the lexer is about to measure there. It measures the
lines that hold nothing together with the one behind them, so some of these may stand between. -/
inductive LineStart : List Char → List Char → Lexer → Prop
  | intro {before behind : List Char} {passed : List BlankLine} {ts : List Token} {l : Lexer}
      (line : before = [] ∨ Whole before) (plain : ∀ line ∈ passed, line.Plain)
      (runs : (Lexer.ofList (before ++ passed.flatMap BlankLine.chars ++ behind)).Runs ts l)
      (starts : l.Starts) (rest : l.cursor.rest = passed.flatMap BlankLine.chars ++ behind) :
      LineStart (before ++ passed.flatMap BlankLine.chars) behind l

/-- **Lines that hold nothing never matter**, if each has the blanks of a margin only or is as far
in as the line before. -/
theorem shown_withBlankLines {front behind : List Char} {l : Lexer}
    (start : LineStart front behind l) {lines : List BlankLine}
    (idle : ∀ line ∈ lines, line.Plain ∨ line.width = l.width) :
    (tokenize (String.ofList (front ++ lines.flatMap BlankLine.chars ++ behind))).map Token.shown =
      (tokenize (String.ofList (front ++ behind))).map Token.shown := by
  obtain @⟨before, behind, passed, ts, l, line, plain, runs, starts, rest⟩ := start
  have text : before ++ passed.flatMap BlankLine.chars ++ lines.flatMap BlankLine.chars ++ behind =
      before ++ ((passed ++ lines).flatMap BlankLine.chars ++ behind) := by
    simp only [List.append_assoc, List.flatMap_append]
  -- the lexer comes to the same place where the lines are inserted
  have differ : Differ₀ (passed.flatMap BlankLine.chars ++ behind)
      ((passed ++ lines).flatMap BlankLine.chars ++ behind)
      (before ++ passed.flatMap BlankLine.chars ++ behind)
      (before ++ ((passed ++ lines).flatMap BlankLine.chars ++ behind)) := by
    rw [List.append_assoc]
    obtain rfl | whole := line
    · exact .inl ⟨rfl, rfl⟩
    · exact .inr ⟨before, whole, rfl, rfl⟩
  obtain ⟨ts', l', runs', shown, abreast, rest'⟩ := runs.differ (Lexer.sound_ofList _)
    (.moved (Lexer.ofList (before ++ ((passed ++ lines).flatMap BlankLine.chars ++ behind))) _)
    differ starts.2.1 rest
  obtain ⟨_, _, sound, -⟩ := (Lexer.sound_ofList _).runs runs
  obtain ⟨_, _, sound', -⟩ := (Lexer.sound_ofList _).runs runs'
  -- it passes the lines with them and without them, to the same rest
  obtain ⟨m, same, here, yields⟩ := sound.pass starts (fun line mem => .inl (plain line mem)) rest
  have width : l.width = l'.width := by rw [Lexer.width, Lexer.width, abreast.levels]
  have idle' : ∀ line ∈ passed ++ lines, line.Plain ∨ line.width = l'.width :=
    List.forall_mem_append.2 ⟨fun line mem => .inl (plain line mem), width ▸ idle⟩
  obtain ⟨m', same', here', yields'⟩ := sound'.pass (abreast.starts.1 starts) idle' rest'
  have level : m.Level m' :=
    ((same.trans abreast).trans same'.symm).level (here.trans here'.symm)
  obtain ⟨us, goes⟩ := m.exists_yields
  obtain ⟨us', goes', alike⟩ := goes.level level
  obtain ⟨vs, goes, eq⟩ := yields us goes
  obtain ⟨vs', goes', eq'⟩ := yields' us' goes'
  rw [text, Lexer.tokenize_of_runs runs goes, Lexer.tokenize_of_runs runs' goes', List.map_append,
    List.map_append, shown, ← eq, ← eq', alike]

/-- So many steps, with the tokens that they read. -/
def Lexer.steps : Nat → Lexer → List Token × Lexer
  | 0, l => ([], l)
  | count + 1, l =>
    let (r, l) := l.step
    let (ts, l) := steps count l
    (r.toList ++ ts, l)

theorem Lexer.runs_steps (count : Nat) (l : Lexer)
    (inner : ∀ t ∈ (l.steps count).1, t.kind ≠ .mark .endOfInput) :
    l.Runs (l.steps count).1 (l.steps count).2 := by
  induction count generalizing l with
  | zero => exact .nil l
  | succ count ih =>
    cases step : l.step with
    | mk r l' =>
      rw [steps, step] at inner ⊢
      obtain ⟨before, later⟩ := List.forall_mem_append.1 inner
      cases r with
      | none => exact .silent step (ih l' later)
      | some t => exact .token step (before t (List.mem_singleton_self t)) (ih l' later)

/-- A block up to its first line, and the second line. -/
def firstLine : List Char := "if a:\n    b\n".toList

def secondLine : List Char := "    c\n".toList

/-- The lexer between the two lines. -/
def betweenLines : Lexer := ((Lexer.ofList (firstLine ++ secondLine)).steps 7).2

theorem lineStart_betweenLines : LineStart firstLine secondLine betweenLines := by
  have runs : (Lexer.ofList (firstLine ++ [] ++ secondLine)).Runs _ betweenLines :=
    Lexer.runs_steps 7 _ (by decide)
  have start : betweenLines.Starts ∧ betweenLines.cursor.rest = secondLine := by decide
  have whole : Whole firstLine := by decide
  have split := @LineStart.intro firstLine secondLine [] _ _ (.inr whole) nofun runs start.1 start.2
  rwa [List.flatMap_nil, List.append_nil] at split

/-- A comment that is further in, and a line that is as far in as the block and has a form feed. -/
def idleLines : List BlankLine :=
  [⟨"\t ".toList, "# note".toList, List.all_iff_forall_prop.1 (by decide),
      fun _ sign => (Option.some.inj sign).symm, by decide⟩,
    ⟨"    \x0c".toList, [], List.all_iff_forall_prop.1 (by decide), nofun, by decide⟩]

theorem shown_withBlankLines_block : LineStart firstLine secondLine betweenLines ∧
    (∀ line ∈ idleLines, line.Plain ∨ line.width = betweenLines.width) ∧
    (tokenize (String.ofList
      (firstLine ++ idleLines.flatMap BlankLine.chars ++ secondLine))).map Token.shown =
      (tokenize (String.ofList (firstLine ++ secondLine))).map Token.shown := by
  have idle : ∀ line ∈ idleLines, line.Plain ∨ line.width = betweenLines.width := by decide
  exact ⟨lineStart_betweenLines, idle, shown_withBlankLines lineStart_betweenLines idle⟩

/-- A line of a form feed. -/
def formFeed : BlankLine :=
  ⟨['\x0c'], [], List.all_iff_forall_prop.1 (by decide), nofun, by decide⟩

/-- **A form feed ends a block.** The line holds nothing, and it is measured as one without a
margin. -/
theorem exists_blank_line_shown : LineStart firstLine secondLine betweenLines ∧
    (tokenize (String.ofList (firstLine ++ secondLine))).map Token.shown =
      [(.mark .ifWord, "if"), (.name "a", "a"), (.mark .colon, ":"), (.mark .newline, "\\n"),
        (.mark .indent, ""), (.name "b", "b"), (.mark .newline, "\\n"), (.name "c", "c"),
        (.mark .newline, "\\n"), (.mark .dedent, ""), (.mark .endOfInput, "")] ∧
    (tokenize (String.ofList (firstLine ++ [formFeed].flatMap BlankLine.chars ++ secondLine))).map
        Token.shown =
      [(.mark .ifWord, "if"), (.name "a", "a"), (.mark .colon, ":"), (.mark .newline, "\\n"),
        (.mark .indent, ""), (.name "b", "b"), (.mark .newline, "\\n"), (.mark .dedent, ""),
        (.mark .indent, ""), (.name "c", "c"), (.mark .newline, "\\n"), (.mark .dedent, ""),
        (.mark .endOfInput, "")] :=
  ⟨lineStart_betweenLines, by decide, by decide⟩

end SheetScript.Token
