import SheetScript.Proofs.Cascade.DependencyOrder
import SheetScript.Proofs.Cascade.Reach

/-!
# The rounds of a change

A change goes by rounds. Each round collects the scripts that the names reach and runs them, as far
as the limit of runs allows; what they write through their sheets starts the next round. The limit
of rounds in `Cascade.attributesChanged` is never met: a round that leaves something to do has run a
script, and no script runs twice.

* `Cascade.Round` is one round, without any limit of rounds, and `Progress.Over` says that there is
  none left.
* `Progress.Sound` is the invariant of all rounds.
* `Progress.rounds_attributesChanged` and `Progress.rounds_to_end`: the rounds come to an end, and to
  one only.
* `Cascade.Built.wellFormed`: whatever is done to a cascade, it stays well-formed.
-/

namespace SheetScript.Cascade

open Relation

variable {c : Cascade}

/-! ## The scripts that names reach -/

/-- The registry holds that a script reads a name. -/
def readsName (c : Cascade) (script : Script) (name : String) : Bool :=
  (c.engine.subscriptions.subscribers name).contains script.id

/-- A change of the names reaches a script of the cascade, by subscriptions and by what the scripts
produce. -/
def Reaches (c : Cascade) (names : List String) : Script → Prop :=
  Reach.Reached c.readsName (producedName? c.sheet) names c.members

theorem readsName_iff {script : Script} {name : String} :
    c.readsName script name ↔ script.id ∈ c.engine.subscriptions.subscribers name :=
  List.contains_iff_mem

theorem mem_affected_iff {names ran : List String} {script : Script} :
    script ∈ c.affected names ran ↔ Reach.Reached c.readsName (producedName? c.sheet) names
      (c.members.filter fun s => !ran.contains s.id) script := Reach.mem_collect_iff

theorem mem_affected_nil_iff {names : List String} {script : Script} :
    script ∈ c.affected names [] ↔ c.Reaches names script := by
  have all : c.members.filter (fun s => !([] : List String).contains s.id) = c.members :=
    List.filter_eq_self.2 fun _ _ => rfl
  rw [mem_affected_iff, all]
  rfl

theorem of_mem_affected {names ran : List String} {script : Script}
    (h : script ∈ c.affected names ran) : script ∈ c.members ∧ script.id ∉ ran := by
  obtain ⟨mem, new⟩ := List.mem_filter.1 (mem_affected_iff.1 h).mem
  exact ⟨mem, by simpa using new⟩

theorem Keyed.nodup_affected (h : c.Keyed) (names ran : List String) :
    ((c.affected names ran).map (·.id)).Nodup := by
  obtain ⟨l, perm, sub⟩ := Reach.collect_subperm c.readsName (producedName? c.sheet) names
    (c.members.filter fun s => !ran.contains s.id)
  have nodup : (l.map (·.id)).Nodup :=
    h.nodup_ids.sublist ((sub.trans List.filter_sublist).map _)
  exact (perm.map _).nodup_iff.1 nodup

namespace Progress

variable {p q : Progress} {script : Script}

/-! ## One script of a round -/

/-- Run one script and note it. -/
def step (p : Progress) (script : Script) : Progress :=
  ⟨(p.cascade.record script p.report).2.2, (p.cascade.record script p.report).2.1,
    script.id :: p.ran, p.touched ++ (p.cascade.record script p.report).1⟩

/-- How many scripts may still run. -/
def room (p : Progress) : Nat := p.cascade.maxRuns - p.report.runs

/-- Note that the limit of runs has left scripts waiting. -/
def truncate (p : Progress) : Progress := { p with report := { p.report with truncated := true } }

theorem step_ids (p : Progress) (script : Script) :
    (p.step script).report.ids.Perm (script.id :: p.report.ids) :=
  p.cascade.record_ids script p.report

theorem step_runs (p : Progress) (script : Script) :
    (p.step script).report.runs = p.report.runs + 1 := by
  rw [← CascadeReport.length_ids, (p.step_ids script).length_eq, List.length_cons,
    CascadeReport.length_ids]

theorem step_truncated (p : Progress) (script : Script) :
    (p.step script).report.truncated = p.report.truncated := by
  unfold step
  rcases p.cascade.record_cases script p.report with ⟨-, _, eq⟩ | ⟨-, _, _, -, eq⟩
  · rw [eq]
  · rw [eq]

theorem step_frame (p : Progress) (script : Script) :
    p.cascade.SameFrame (p.step script).cascade := p.cascade.sameFrame_record script p.report

theorem step_room (p : Progress) (script : Script) : (p.step script).room = p.room - 1 := by
  rw [room, room, step_runs, ← (p.step_frame script).maxRuns_eq]
  omega

theorem step_registry (p : Progress) (script : Script) :
    p.cascade.engine.subscriptions.AgreeApart script.id
      (p.step script).cascade.engine.subscriptions := by
  unfold step
  rw [record_engine]
  exact p.cascade.engineAfter_registry script

/-- **A round runs its scripts in order, as many as there is room for.** -/
theorem runRound_eq (p : Progress) (scripts : List Script) :
    runRound p scripts =
      if scripts.length ≤ p.room then scripts.foldl step p
      else ((scripts.take p.room).foldl step p).truncate := by
  induction scripts generalizing p with
  | nil => simp [runRound]
  | cons script rest ih =>
    rw [runRound]
    by_cases full : p.cascade.maxRuns ≤ p.report.runs
    · have closed : p.room = 0 := Nat.sub_eq_zero_of_le full
      rw [if_pos full, if_neg (by simp [closed]), closed]
      rfl
    · have left : p.room = (p.step script).room + 1 := by
        rw [step_room]
        have := Nat.sub_pos_of_lt (Nat.lt_of_not_le full)
        unfold room at this ⊢
        omega
      rw [if_neg full]
      change runRound (p.step script) rest = _
      rw [ih, left]
      simp only [List.length_cons, Nat.add_le_add_iff_right, List.take_succ_cons, List.foldl_cons]

/-! ## Several scripts -/

theorem foldl_ran (p : Progress) (scripts : List Script) :
    (scripts.foldl step p).ran = (scripts.map (·.id)).reverse ++ p.ran := by
  induction scripts generalizing p with
  | nil => rfl
  | cons script rest ih =>
    rw [List.foldl_cons, ih, List.map_cons, List.reverse_cons, List.append_assoc]
    rfl

theorem foldl_truncated (p : Progress) (scripts : List Script) :
    (scripts.foldl step p).report.truncated = p.report.truncated := by
  induction scripts generalizing p with
  | nil => rfl
  | cons script rest ih => rw [List.foldl_cons, ih, step_truncated]

theorem foldl_runs (p : Progress) (scripts : List Script) :
    (scripts.foldl step p).report.runs = p.report.runs + scripts.length := by
  induction scripts generalizing p with
  | nil => rfl
  | cons script rest ih =>
    rw [List.foldl_cons, ih, step_runs, List.length_cons]
    omega

theorem foldl_frame (p : Progress) (scripts : List Script) :
    p.cascade.SameFrame (scripts.foldl step p).cascade := by
  induction scripts generalizing p with
  | nil => exact .refl _
  | cons script rest ih => exact (p.step_frame script).trans (ih _)

/-- The pairs of a script that does not run stay as they are. -/
theorem foldl_registry (p : Progress) (scripts : List Script) {id : String}
    (out : id ∉ scripts.map (·.id)) (name : String) :
    id ∈ (scripts.foldl step p).cascade.engine.subscriptions.subscribers name ↔
      id ∈ p.cascade.engine.subscriptions.subscribers name := by
  induction scripts generalizing p with
  | nil => exact Iff.rfl
  | cons script rest ih =>
    rw [List.map_cons, List.mem_cons, not_or] at out
    rw [List.foldl_cons, ih _ out.2]
    exact (p.step_registry script id out.1 name).2

theorem foldl_touched_mono (p : Progress) (scripts : List Script) {name : String}
    (h : name ∈ p.touched) : name ∈ (scripts.foldl step p).touched := by
  induction scripts generalizing p with
  | nil => exact h
  | cons script rest ih => exact ih _ (List.mem_append_left _ h)

/-- What a script touches on the way is touched in the end. -/
theorem foldl_touched (p : Progress) (before after : List Script) (script : Script) {name : String}
    (ok : ((before.foldl step p).cascade.evaluate script).1.failure = none)
    (h : name ∈ (before.foldl step p).cascade.touchedBy script) :
    name ∈ ((before ++ script :: after).foldl step p).touched := by
  rw [List.foldl_append, List.foldl_cons]
  refine foldl_touched_mono _ after (List.mem_append_right _ ?_)
  rcases (before.foldl step p).cascade.record_cases script (before.foldl step p).report with
    ⟨-, _, eq⟩ | ⟨failed, -⟩
  · rwa [eq]
  · exact absurd ok failed

end Progress

/-! ## Rounds -/

namespace Progress

/-- There is nothing left to do, or no room to do it. -/
def Over (p : Progress) : Prop := p.touched = [] ∨ p.report.truncated = true

/-- The scripts collected for a round, in the order in which they are to run. -/
def due (p : Progress) : List Script :=
  p.cascade.dependencyOrder (p.cascade.affected p.touched p.ran)

/-- A round starts with nothing touched. -/
def opened (p : Progress) : Progress := { p with touched := [] }

/-- Where the change stands after the next round. -/
def nextRound (p : Progress) : Progress := runRound p.opened p.due

/-- In the round that starts here, a script that runs to its end writes an attribute of that name
through its sheet. -/
def Writes (p : Progress) (name : String) : Prop :=
  ∃ before script after, p.due = before ++ script :: after ∧ before.length < p.room ∧
    ((runRound p.opened before).cascade.evaluate script).1.failure = none ∧
    ∃ id ∈ ((runRound p.opened before).cascade.evaluate script).1.effects.modified,
      (runRound p.opened before).cascade.sheet.nameOf? id = some name

/-- What stays true of a change from round to round. -/
structure Sound (c : Cascade) (p : Progress) : Prop where
  frame : c.SameFrame p.cascade
  noted : p.report.ids.Perm p.ran
  distinct : p.ran.Nodup
  bound : p.report.runs ≤ c.maxRuns

end Progress

/-- One round of a change. -/
def Round (p q : Progress) : Prop := ¬p.Over ∧ q = p.nextRound

/-- Where a change starts. -/
def Progress.start (c : Cascade) (names : List String) : Progress :=
  { cascade := c, touched := names }

namespace Progress

variable {p q : Progress} {script : Script}

theorem sound_start (c : Cascade) (names : List String) : (start c names).Sound c :=
  ⟨.refl c, .refl _, List.nodup_nil, Nat.zero_le _⟩

theorem Sound.step (h : p.Sound c) (new : script.id ∉ p.ran) (room : 0 < p.room) :
    (p.step script).Sound c where
  frame := h.frame.trans (p.step_frame script)
  noted := (p.step_ids script).trans (h.noted.cons _)
  distinct := List.nodup_cons.2 ⟨new, h.distinct⟩
  bound := by
    rw [Progress.room, ← h.frame.maxRuns_eq] at room
    rw [step_runs]
    omega

theorem Sound.foldl (h : p.Sound c) {scripts : List Script} (nodup : (scripts.map (·.id)).Nodup)
    (new : ∀ s ∈ scripts, s.id ∉ p.ran) (room : scripts.length ≤ p.room) :
    (scripts.foldl Progress.step p).Sound c := by
  induction scripts generalizing p with
  | nil => exact h
  | cons script rest ih =>
    obtain ⟨first, nodup⟩ := List.nodup_cons.1 nodup
    rw [List.length_cons] at room
    refine ih (h.step (new _ List.mem_cons_self) (by omega)) nodup (fun s mem => ?_) ?_
    · refine List.not_mem_cons_of_ne_of_not_mem (fun eq => ?_) (new s (List.mem_cons_of_mem _ mem))
      exact first (List.mem_map.2 ⟨s, mem, eq⟩)
    · rw [step_room]
      omega

theorem of_mem_due (h : script ∈ p.due) : script ∈ p.cascade.members ∧ script.id ∉ p.ran :=
  of_mem_affected (mem_dependencyOrder.1 h)

theorem mem_due_iff : script ∈ p.due ↔
    Reach.Reached p.cascade.readsName (producedName? p.cascade.sheet) p.touched
      (p.cascade.members.filter fun s => !p.ran.contains s.id) script := by
  rw [due, mem_dependencyOrder, mem_affected_iff]

theorem Sound.keyed (h : p.Sound c) (keyed : c.Keyed) : p.cascade.Keyed :=
  keyed.of_scripts h.frame.scripts

theorem Sound.nodup_due (h : p.Sound c) (keyed : c.Keyed) : (p.due.map (·.id)).Nodup :=
  ((dependencyOrder_perm _ _).map _).nodup_iff.2 ((h.keyed keyed).nodup_affected _ _)

/-- What a round comes to: all that are due run, or as many of them as there is room for. -/
theorem nextRound_cases (p : Progress) :
    (p.due.length ≤ p.room ∧ p.nextRound = p.due.foldl step p.opened) ∨
      (p.room < p.due.length ∧
        p.nextRound = ((p.due.take p.room).foldl step p.opened).truncate) := by
  have eq := runRound_eq p.opened p.due
  change p.nextRound = if p.due.length ≤ p.room then _ else _ at eq
  by_cases fits : p.due.length ≤ p.room
  · exact Or.inl ⟨fits, by rwa [if_pos fits] at eq⟩
  · exact Or.inr ⟨Nat.lt_of_not_le fits, by rwa [if_neg fits] at eq⟩

/-- With room for all that are due, a round runs them in order. -/
theorem nextRound_of_fits (fits : p.due.length ≤ p.room) :
    p.nextRound = p.due.foldl step p.opened := by
  rcases p.nextRound_cases with ⟨-, eq⟩ | ⟨short, -⟩
  · exact eq
  · exact absurd fits (Nat.not_le_of_lt short)

theorem Sound.nextRound (h : p.Sound c) (keyed : c.Keyed) : p.nextRound.Sound c := by
  have opened : p.opened.Sound c := ⟨h.frame, h.noted, h.distinct, h.bound⟩
  have nodup := h.nodup_due keyed
  have new : ∀ s ∈ p.due, s.id ∉ p.ran := fun s mem => (of_mem_due mem).2
  rcases p.nextRound_cases with ⟨fits, eq⟩ | ⟨-, eq⟩
  · rw [eq]
    exact opened.foldl nodup new fits
  · rw [eq]
    have taken := opened.foldl (nodup.sublist ((List.take_sublist p.room p.due).map _))
      (fun s mem => new s (List.mem_of_mem_take mem)) (List.length_take_le _ _)
    exact ⟨taken.frame, taken.noted, taken.distinct, taken.bound⟩

theorem sound_of_rounds (keyed : c.Keyed) {names : List String}
    (h : ReflTransGen Round (start c names) p) : p.Sound c := by
  induction h with
  | refl => exact sound_start c names
  | tail _ round ih =>
    obtain ⟨-, rfl⟩ := round
    exact ih.nextRound keyed

/-- A round forgets no script that has run. -/
theorem ran_subset_nextRound (p : Progress) : ∀ id ∈ p.ran, id ∈ p.nextRound.ran := by
  intro id mem
  rcases p.nextRound_cases with ⟨-, eq⟩ | ⟨-, eq⟩
  · rw [eq, foldl_ran]
    exact List.mem_append_right _ mem
  · rw [eq, truncate, foldl_ran]
    exact List.mem_append_right _ mem

theorem ran_subset_of_rounds (h : ReflTransGen Round p q) : ∀ id ∈ p.ran, id ∈ q.ran := by
  induction h with
  | refl => exact fun _ mem => mem
  | tail _ round ih =>
    obtain ⟨-, rfl⟩ := round
    exact fun id mem => ran_subset_nextRound _ id (ih id mem)

/-- A round that is not cut short runs all that are due. -/
theorem ran_of_due (fits : p.due.length ≤ p.room) (h : script ∈ p.due) :
    script.id ∈ p.nextRound.ran := by
  rw [nextRound_of_fits fits, foldl_ran]
  exact List.mem_append_left _ (List.mem_reverse.2 (List.mem_map_of_mem h))

/-- A round is cut short exactly when it is reported so, if none before it was. -/
theorem nextRound_truncated_iff (h : ¬p.Over) :
    p.nextRound.report.truncated = true ↔ p.room < p.due.length := by
  have clear : p.report.truncated = false := Bool.eq_false_iff.2 fun cut => h (Or.inr cut)
  rcases p.nextRound_cases with ⟨fits, eq⟩ | ⟨short, eq⟩
  · rw [eq, foldl_truncated]
    change p.report.truncated = true ↔ _
    rw [clear]
    exact ⟨fun cut => absurd cut Bool.false_ne_true,
      fun short => absurd fits (Nat.not_le_of_lt short)⟩
  · rw [eq]
    exact ⟨fun _ => short, fun _ => rfl⟩

/-! ## The end of a change -/

/-- How many scripts have not run. -/
def remaining (p : Progress) : Nat :=
  (p.cascade.members.filter fun s => !p.ran.contains s.id).length

/-- A round that leaves something to do has run a script. -/
theorem remaining_nextRound_lt (h : ¬p.nextRound.Over) : p.nextRound.remaining < p.remaining := by
  rcases p.nextRound_cases with ⟨fits, eq⟩ | ⟨-, eq⟩
  · cases due : p.due with
    | nil =>
      rw [due] at eq
      exact absurd (Or.inl (by rw [eq]; rfl)) h
    | cons script rest =>
      have mem : script ∈ p.due := by
        rw [due]
        exact List.mem_cons_self
      obtain ⟨member, new⟩ := of_mem_due mem
      have members : p.nextRound.cascade.members = p.cascade.members := by
        rw [eq]
        exact (foldl_frame p.opened p.due).members_eq.symm
      unfold remaining
      rw [members]
      have sub : (p.cascade.members.filter fun s => !p.nextRound.ran.contains s.id).Sublist
          (p.cascade.members.filter fun s => !p.ran.contains s.id) :=
        List.monotone_filter_right _ fun s out => by
          simp only [Bool.not_eq_true', List.contains_eq_mem, decide_eq_false_iff_not] at out ⊢
          exact fun mem => out (p.ran_subset_nextRound _ mem)
      refine lt_of_le_of_ne sub.length_le fun same => ?_
      -- the first script that was due has run
      have still : script ∈ p.cascade.members.filter fun s => !p.ran.contains s.id :=
        List.mem_filter.2 ⟨member, by simpa using new⟩
      rw [← sub.eq_of_length same] at still
      have out := (List.mem_filter.1 still).2
      simp only [Bool.not_eq_true', List.contains_eq_mem, decide_eq_false_iff_not] at out
      exact out (ran_of_due fits mem)
  · exact absurd (Or.inr (by rw [eq]; rfl)) h

theorem runRounds_of_over (h : p.Over) (room : Nat) : runRounds room p = p := by
  cases room with
  | zero => rfl
  | succ room =>
    rw [runRounds, if_pos]
    rcases h with empty | cut
    · rw [empty]
      rfl
    · rw [cut, Bool.or_true]

theorem runRounds_succ (h : ¬p.Over) (room : Nat) :
    runRounds (room + 1) p = runRounds room p.nextRound := by
  rw [runRounds, if_neg]
  · rfl
  · rw [Bool.or_eq_true, List.isEmpty_iff]
    exact h

/-- With room for more rounds than there are scripts left, the rounds come to their end. -/
theorem rounds_runRounds {room : Nat} (h : p.remaining < room) :
    ReflTransGen Round p (runRounds room p) ∧ (runRounds room p).Over := by
  induction room generalizing p with
  | zero => omega
  | succ room ih =>
    by_cases ended : p.Over
    · rw [runRounds_of_over ended]
      exact ⟨.refl, ended⟩
    · rw [runRounds_succ ended]
      by_cases last : p.nextRound.Over
      · rw [runRounds_of_over last]
        exact ⟨.single ⟨ended, rfl⟩, last⟩
      · have fewer := remaining_nextRound_lt last
        obtain ⟨path, finished⟩ := ih (p := p.nextRound) (by omega)
        exact ⟨.head ⟨ended, rfl⟩ path, finished⟩

/-- A change goes by rounds to their end. -/
theorem rounds_attributesChanged (c : Cascade) (names : List String) :
    ∃ p, c.attributesChanged names = (p.report, p.cascade) ∧
      ReflTransGen Round (start c names) p ∧ p.Over := by
  have few : (start c names).remaining < c.scripts.length + 1 := by
    have le := List.length_filter_le (fun s : Script => !(start c names).ran.contains s.id) c.members
    have length : c.members.length = c.scripts.length := List.length_map _
    change (c.members.filter _).length < _
    omega
  exact ⟨_, rfl, rounds_runRounds few⟩

/-- The rounds of a change are determined: all of them lead to the end. -/
theorem rounds_to_end {first : Progress} (hq : ReflTransGen Round first q) (ended : q.Over)
    (hp : ReflTransGen Round first p) : ReflTransGen Round p q := by
  have unique : Relator.RightUnique Round := fun a b b' hb hb' => hb.2.trans hb'.2.symm
  rcases ReflTransGen.total_of_right_unique unique hp hq with path | path
  · exact path
  · rcases path.cases_head with rfl | ⟨_, round, -⟩
    · exact .refl
    · exact absurd ended round.1

theorem wellFormed_foldl (h : p.cascade.WellFormed) {scripts : List Script}
    (mem : ∀ s ∈ scripts, s ∈ p.cascade.members) :
    (scripts.foldl step p).cascade.WellFormed := by
  induction scripts generalizing p with
  | nil => exact h
  | cons script rest ih =>
    refine ih (h.record (mem _ List.mem_cons_self) p.report) fun s hs => ?_
    rw [← (p.step_frame script).members_eq]
    exact mem s (List.mem_cons_of_mem _ hs)

theorem wellFormed_nextRound (h : p.cascade.WellFormed) : p.nextRound.cascade.WellFormed := by
  have inside : ∀ s ∈ p.due, s ∈ p.opened.cascade.members := fun s hs => (of_mem_due hs).1
  rcases p.nextRound_cases with ⟨-, eq⟩ | ⟨-, eq⟩
  · rw [eq]
    exact wellFormed_foldl (p := p.opened) h inside
  · rw [eq]
    exact wellFormed_foldl (p := p.opened) h fun s hs => inside s (List.mem_of_mem_take hs)

end Progress

/-! ## Every cascade is well-formed -/

theorem WellFormed.attributesChanged (h : c.WellFormed) (names : List String) :
    (c.attributesChanged names).2.WellFormed := by
  have rounds : ∀ room (p : Progress), p.cascade.WellFormed →
      (runRounds room p).cascade.WellFormed := fun room => by
    induction room with
    | zero => exact fun p h => h
    | succ room ih =>
      intro p h
      by_cases ended : p.Over
      · rwa [Progress.runRounds_of_over ended]
      · rw [Progress.runRounds_succ ended]
        exact ih _ (Progress.wellFormed_nextRound h)
  exact rounds _ _ h

theorem WellFormed.recomputeAll (h : c.WellFormed) : c.recomputeAll.2.WellFormed := by
  have primed : (c.prime c.members).WellFormed := h.prime fun _ mem => mem
  refine primed.recordAll (fun script mem => ?_) {}
  rw [← (c.sameFrame_prime c.members).members_eq]
  exact mem_dependencyOrder.1 mem

/-- The cascades that can be made, from an engine whose registry is consistent. -/
inductive Built : Cascade → Prop
  | new {engine : Engine} (h : engine.subscriptions.Inverse) (sheet : Sheet) :
      Built (new engine sheet)
  | addScript {c : Cascade} (h : Built c) (script : Script) : Built (c.addScript script)
  | removeScript {c : Cascade} (h : Built c) (id : String) : Built (c.removeScript id)
  | addChart {c : Cascade} (h : Built c) (chart : Chart) : Built (c.addChart chart)
  | withSheet {c : Cascade} (h : Built c) (sheet : Sheet) : Built { c with sheet := sheet }
  | withDraws {c : Cascade} (h : Built c) (draws : Draws) : Built { c with draws := draws }
  | recomputeAll {c : Cascade} (h : Built c) : Built c.recomputeAll.2
  | attributesChanged {c : Cascade} (h : Built c) (names : List String) :
      Built (c.attributesChanged names).2

/-- **Every cascade that can be made is well-formed.** -/
theorem Built.wellFormed (h : Built c) : c.WellFormed := by
  induction h with
  | new inverse sheet => exact wellFormed_new inverse sheet
  | addScript _ script ih => exact ih.addScript script
  | removeScript _ id ih => exact ih.removeScript id
  | addChart _ chart ih => exact ih.addChart chart
  | withSheet _ sheet ih => exact ih.withSheet sheet
  | withDraws _ draws ih => exact ih.withDraws draws
  | recomputeAll _ ih => exact ih.recomputeAll
  | attributesChanged _ names ih => exact ih.attributesChanged names

end SheetScript.Cascade
