import SheetScript.Proofs.Cascade.Rounds

/-!
# What a change runs

What `Cascade.attributesChanged` promises, for any scripts, subscriptions and limit of runs: it
comes to an end, no script runs twice, the limit is kept, and as long as the limit is not reached no
script is missed that the change reaches, be it at once or by what scripts write through their
sheets.

* `Cascade.ChangeRun` spells this out, by the rounds of the change.
* `Cascade.runs_each_once` proves it, and that `Cascade.recomputeAll` runs every script once.
-/

namespace SheetScript.Cascade

open Relation

/-- What a change of the names comes to, when its rounds end at `p`. -/
structure ChangeRun (c : Cascade) (names : List String) (p : Progress) : Prop where
  /-- The change goes by rounds. -/
  rounds : ReflTransGen Round (.start c names) p
  /-- At the end there is nothing left to do, or no room to do it. -/
  ended : p.Over
  /-- No script runs twice. -/
  once : p.report.ids.Nodup
  /-- The limit of runs is kept. -/
  limit : p.report.runs ≤ c.maxRuns
  /-- The change is cut short exactly when the limit leaves a collected script waiting. -/
  truncated_iff : p.report.truncated = true ↔ p.report.runs = c.maxRuns ∧
    ∃ q, ReflTransGen Round (.start c names) q ∧ ¬q.Over ∧
      ∃ script ∈ q.due, script.id ∉ p.report.ids
  /-- Otherwise, all scripts run that the names reach at the start. -/
  reached : p.report.truncated = false → ∀ script, c.Reaches names script →
    script.id ∈ p.report.ids
  /-- And so do the scripts that read, after a round, what was written in it. -/
  written : p.report.truncated = false → ∀ q, ReflTransGen Round (.start c names) q → ¬q.Over →
    ∀ name, q.Writes name → ∀ script ∈ c.members,
      script.id ∈ q.nextRound.cascade.engine.subscriptions.subscribers name →
      script.id ∈ p.report.ids

namespace Progress

variable {c : Cascade} {first p q : Progress} {script : Script}

theorem truncated_of_rounds (h : ReflTransGen Round q p) (cut : q.report.truncated = true) :
    p.report.truncated = true := by
  rcases h.cases_head with rfl | ⟨_, round, -⟩
  · exact cut
  · exact absurd (Or.inr cut) round.1

/-- When a change is not cut short, none of its rounds is. -/
theorem fits_of_not_truncated (rounds : ReflTransGen Round first p) (ended : p.Over)
    (clear : p.report.truncated = false) (hq : ReflTransGen Round first q) (more : ¬q.Over) :
    q.due.length ≤ q.room ∧ ReflTransGen Round q.nextRound p := by
  have path : ReflTransGen Round q.nextRound p :=
    rounds_to_end rounds ended (hq.tail ⟨more, rfl⟩)
  refine ⟨Nat.le_of_not_lt fun short => ?_, path⟩
  have cut := truncated_of_rounds path ((nextRound_truncated_iff more).2 short)
  rw [clear] at cut
  exact Bool.false_ne_true cut

/-- A script that is due in some round of a change that is not cut short has run in the end. -/
theorem ran_of_due_of_not_truncated (rounds : ReflTransGen Round first p) (ended : p.Over)
    (clear : p.report.truncated = false) (hq : ReflTransGen Round first q) (more : ¬q.Over)
    (due : script ∈ q.due) : script.id ∈ p.ran := by
  obtain ⟨fits, path⟩ := fits_of_not_truncated rounds ended clear hq more
  exact ran_subset_of_rounds path _ (ran_of_due fits due)

/-- A change that is cut short has used up its runs in a round that left a script waiting. -/
theorem exists_waiting_of_truncated (keyed : c.Keyed) {names : List String}
    (h : ReflTransGen Round (start c names) p) (cut : p.report.truncated = true) :
    p.report.runs = c.maxRuns ∧ ∃ q, ReflTransGen Round (start c names) q ∧ ¬q.Over ∧
      ∃ script ∈ q.due, script.id ∉ p.report.ids := by
  rcases h.cases_tail with rfl | ⟨q, path, more, rfl⟩
  · exact absurd cut Bool.false_ne_true
  · have sound := sound_of_rounds keyed path
    have next := sound.nextRound keyed
    have short := (nextRound_truncated_iff more).1 cut
    rcases q.nextRound_cases with ⟨fits, -⟩ | ⟨-, eq⟩
    · omega
    · have room : q.room = c.maxRuns - q.report.runs := by
        rw [room, sound.frame.maxRuns_eq]
      have runs : q.nextRound.report.runs = c.maxRuns := by
        have bound := sound.bound
        have taken := foldl_runs q.opened (q.due.take q.room)
        rw [List.length_take_of_le (by omega)] at taken
        rw [eq]
        change ((q.due.take q.room).foldl step q.opened).report.runs = c.maxRuns
        rw [taken, room]
        change q.report.runs + _ = _
        omega
      refine ⟨runs, q, path, more, q.due[q.room], List.getElem_mem short, fun ran => ?_⟩
      -- it is neither among the scripts taken nor among those that ran before
      rw [next.noted.mem_iff, eq] at ran
      change _ ∈ ((q.due.take q.room).foldl step q.opened).ran at ran
      rw [foldl_ran] at ran
      rcases List.mem_append.1 ran with taken | before
      · have nodup := sound.nodup_due keyed
        rw [← List.take_append_drop q.room q.due, List.map_append, List.nodup_append] at nodup
        refine nodup.2.2 _ (List.mem_reverse.1 taken) _ (List.mem_map_of_mem ?_) rfl
        rw [List.drop_eq_getElem_cons short]
        exact List.mem_cons_self
      · exact (of_mem_due (List.getElem_mem short)).2 before

/-- What a script writes to another attribute is touched. -/
theorem mem_touchedBy {id name : String} (apart : script.entityId ≠ some id)
    (written : id ∈ (c.evaluate script).1.effects.modified)
    (named : c.sheet.nameOf? id = some name) :
    name ∈ c.touchedBy script := by
  unfold touchedBy touchedNames
  refine List.mem_filterMap.2 ⟨id, List.mem_filter.2 ⟨written, by simpa using apart⟩, ?_⟩
  rw [← named]
  exact ((c.sheet.sameFrame_commit _).nameOf?_eq id).symm

/-- A script that reads what a round computes runs in that round. -/
theorem Sound.ran_of_produced (sound : q.Sound c) (keyed : c.Keyed) (fits : q.due.length ≤ q.room)
    {writer : Script} (due : writer ∈ q.due) {name : String}
    (made : producedName? q.cascade.sheet writer = some name) (member : script ∈ c.members)
    (reads : script.id ∈ q.nextRound.cascade.engine.subscriptions.subscribers name) :
    script.id ∈ q.nextRound.ran := by
  by_contra ran
  have member : script ∈ q.cascade.members := sound.frame.members_eq ▸ member
  have waits : script ∉ q.due := fun due => ran (ran_of_due fits due)
  -- it does not run in the round, so it was subscribed before
  have out : script.id ∉ q.due.map (·.id) := fun mem => by
    obtain ⟨other, due, eq⟩ := List.mem_map.1 mem
    rw [(sound.keyed keyed).eq_of_id (of_mem_due due).1 member eq] at due
    exact waits due
  rw [nextRound_of_fits fits, foldl_registry q.opened q.due out] at reads
  have new : script.id ∉ q.ran := fun mem => ran (q.ran_subset_nextRound _ mem)
  refine waits (mem_due_iff.2 (.through (mem_due_iff.1 due) made ?_ (readsName_iff.2 reads)))
  exact List.mem_filter.2 ⟨member, by simpa using new⟩

/-- What a script of the round writes to another attribute is touched at the end of it. -/
theorem touched_of_written {before after : List Script} {writer : Script}
    (split : q.due = before ++ writer :: after) (fits : q.due.length ≤ q.room)
    (ok : ((before.foldl step q.opened).cascade.evaluate writer).1.failure = none)
    {id name : String} (apart : writer.entityId ≠ some id)
    (written : id ∈ ((before.foldl step q.opened).cascade.evaluate writer).1.effects.modified)
    (named : (before.foldl step q.opened).cascade.sheet.nameOf? id = some name) :
    name ∈ q.nextRound.touched := by
  rw [nextRound_of_fits fits, split]
  exact foldl_touched q.opened before after writer ok (mem_touchedBy apart written named)

/-- **No reader of what was written is missed.** -/
theorem ran_of_writes (keyed : c.Keyed) {names : List String}
    (rounds : ReflTransGen Round (start c names) p) (ended : p.Over)
    (clear : p.report.truncated = false) (hq : ReflTransGen Round (start c names) q)
    (more : ¬q.Over) {name : String} (writes : q.Writes name) (member : script ∈ c.members)
    (reads : script.id ∈ q.nextRound.cascade.engine.subscriptions.subscribers name) :
    script.id ∈ p.ran := by
  obtain ⟨fits, path⟩ := fits_of_not_truncated rounds ended clear hq more
  have sound := sound_of_rounds keyed hq
  obtain ⟨before, writer, after, split, early, ok, id, written, named⟩ := writes
  have partly : runRound q.opened before = before.foldl step q.opened := by
    have fits : before.length ≤ q.opened.room := Nat.le_of_lt early
    rw [runRound_eq, if_pos fits]
  rw [partly] at ok written named
  by_cases own : writer.entityId = some id
  · -- what a script computes is followed in the round itself
    have frame : q.cascade.SameFrame (before.foldl step q.opened).cascade :=
      foldl_frame q.opened before
    have made : producedName? q.cascade.sheet writer = some name := by
      rw [frame.producedName?_eq, producedName?, own]
      exact named
    have due : writer ∈ q.due := by
      rw [split]
      exact List.mem_append_right _ List.mem_cons_self
    exact ran_subset_of_rounds path _ (sound.ran_of_produced keyed fits due made member reads)
  · -- what it writes to others starts the next round
    by_cases ran : script.id ∈ q.nextRound.ran
    · exact ran_subset_of_rounds path _ ran
    have touched := touched_of_written split fits ok own written named
    have go : ¬q.nextRound.Over := by
      rintro (empty | cut)
      · rw [empty] at touched
        exact absurd touched List.not_mem_nil
      · have short := (nextRound_truncated_iff more).1 cut
        omega
    refine ran_of_due_of_not_truncated rounds ended clear (hq.tail ⟨more, rfl⟩) go ?_
    refine mem_due_iff.2 (.direct ?_ touched (readsName_iff.2 reads))
    rw [← (sound.nextRound keyed).frame.members_eq]
    exact List.mem_filter.2 ⟨member, by simpa using ran⟩

end Progress

variable {c : Cascade}

theorem recordAll_ids (c : Cascade) (scripts : List Script) (report : CascadeReport) :
    (c.recordAll scripts report).1.ids.Perm (scripts.map (·.id) ++ report.ids) := by
  induction scripts generalizing c report with
  | nil => exact .refl _
  | cons script rest ih =>
    have next := ih (c.record script report).2.2 (c.record script report).2.1
    exact next.trans (((c.record_ids script report).append_left _).trans List.perm_middle)

theorem changeRun_of_rounds (keyed : c.Keyed) {names : List String} {p : Progress}
    (rounds : ReflTransGen Round (.start c names) p) (ended : p.Over) : ChangeRun c names p := by
  have sound := Progress.sound_of_rounds keyed rounds
  have ran : ∀ {id}, id ∈ p.ran → id ∈ p.report.ids := sound.noted.mem_iff.2
  exact {
    rounds := rounds
    ended := ended
    once := sound.noted.nodup_iff.2 sound.distinct
    limit := sound.bound
    truncated_iff := by
      refine ⟨Progress.exists_waiting_of_truncated keyed rounds, ?_⟩
      rintro ⟨-, q, path, more, script, due, waits⟩
      by_contra cut
      have clear := Bool.eq_false_iff.2 cut
      exact waits (ran (Progress.ran_of_due_of_not_truncated rounds ended clear path more due))
    reached := fun clear script reached => by
      have nonempty : names ≠ [] := by
        rintro rfl
        induction reached with
        | direct _ changed _ => exact absurd changed List.not_mem_nil
        | through _ _ _ _ ih => exact ih
      have more : ¬(Progress.start c names).Over := by
        rintro (empty | cut)
        · exact nonempty empty
        · exact Bool.false_ne_true cut
      refine ran (Progress.ran_of_due_of_not_truncated rounds ended clear .refl more ?_)
      exact mem_dependencyOrder.2 (mem_affected_nil_iff.2 reached)
    written := fun clear q path more name writes script member reads =>
      ran (Progress.ran_of_writes keyed rounds ended clear path more writes member reads) }

/-- **Each script runs once at most, and none is missed.** A change of any names goes by rounds as
`ChangeRun` says, and to recompute all runs every script once. -/
theorem runs_each_once (c : Cascade) (keyed : c.Keyed) :
    (∀ names, ∃ p : Progress, c.attributesChanged names = (p.report, p.cascade) ∧
      ChangeRun c names p) ∧
    c.recomputeAll.1.ids.Perm (Entries.keys c.scripts) := by
  constructor
  · intro names
    have few : (Progress.start c names).remaining < c.scripts.length + 1 := by
      have le := List.length_filter_le
        (fun s : Script => !(Progress.start c names).ran.contains s.id) c.members
      have length : c.members.length = c.scripts.length := List.length_map _
      change (c.members.filter _).length < _
      omega
    obtain ⟨rounds, ended⟩ := Progress.rounds_runRounds few
    exact ⟨_, rfl, changeRun_of_rounds keyed rounds ended⟩
  · have ids := recordAll_ids (c.prime c.members)
      ((c.prime c.members).dependencyOrder c.members) {}
    have order := ((c.prime c.members).dependencyOrder_perm c.members).map (·.id)
    rw [show CascadeReport.ids {} = [] from rfl, List.append_nil] at ids
    rw [← keyed.map_id_members]
    exact ids.trans order

/-- The scripts that read each other run once too. -/
theorem knotted_runs_each_once :
    knotted.Keyed ∧
      (∀ names, ∃ p : Progress, knotted.attributesChanged names = (p.report, p.cascade) ∧
        ChangeRun knotted names p) ∧
      knotted.recomputeAll.1.ids.Perm ["a-s", "b-p", "c-x", "d-y"] :=
  ⟨wellFormed_knotted.toKeyed, runs_each_once knotted wellFormed_knotted.toKeyed⟩

end SheetScript.Cascade
