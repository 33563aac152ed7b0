import Mathlib.Data.List.Perm.Subperm
import SheetScript.Cascade.Reach

/-!
# What the search finds

`Reach.collect` finds the workers that a change reaches, no more and no fewer, and each of them
once.

* `Reach.Reached` says that a change reaches a worker, without a search.
* `Reach.mem_collect_iff`: these are the workers that the search finds.
* `Reach.collect_subperm`: each of the workers is found once at most.
-/

namespace SheetScript.Reach

variable {α : Type} {reads : α → String → Bool} {produces : α → Option String}

/-- A change of the names reaches a worker: it reads one of them, or else what a worker produces
that the change reaches. -/
inductive Reached (reads : α → String → Bool) (produces : α → Option String) (names : List String)
    (workers : List α) : α → Prop
  | direct {w : α} {name : String} (mem : w ∈ workers) (changed : name ∈ names)
      (read : reads w name) : Reached reads produces names workers w
  | through {v w : α} {name : String} (earlier : Reached reads produces names workers v)
      (made : produces v = some name) (mem : w ∈ workers) (read : reads w name) :
      Reached reads produces names workers w

theorem Reached.mem {names : List String} {workers : List α} {w : α}
    (h : Reached reads produces names workers w) : w ∈ workers := by
  cases h with
  | direct mem _ _ => exact mem
  | through _ _ mem _ => exact mem

theorem mem_readers {name : String} {workers : List α} {w : α} :
    w ∈ readers reads name workers ↔ w ∈ workers ∧ reads w name := List.mem_filter

theorem mem_others {name : String} {workers : List α} {w : α} :
    w ∈ others reads name workers ↔ w ∈ workers ∧ ¬reads w name := by
  simp [others]

theorem collectFrom_subperm (seen queue : List String) (waiting : List α) :
    (collectFrom reads produces seen queue waiting).Subperm waiting := by
  fun_induction collectFrom reads produces seen queue waiting with
  | case1 seen waiting => exact List.nil_subperm
  | case2 seen waiting name queue _ ih => exact ih
  | case3 seen waiting name queue _ found ih =>
    have split := List.filter_append_perm (fun w => reads w name) waiting
    exact ((List.subperm_append_left found).2 ih).trans split.subperm

/-- The search finds each of the workers once at most. -/
theorem collect_subperm (reads : α → String → Bool) (produces : α → Option String)
    (names : List String) (workers : List α) :
    (collect reads produces names workers).Subperm workers := collectFrom_subperm _ _ _

/-- What the search finds is reached, when all that it starts from is. -/
theorem reached_of_mem_collectFrom {names : List String} {workers : List α}
    {seen queue : List String} {waiting : List α} (inside : ∀ w ∈ waiting, w ∈ workers)
    (start : ∀ name ∈ queue, ∀ w ∈ workers, reads w name →
      Reached reads produces names workers w) :
    ∀ w ∈ collectFrom reads produces seen queue waiting,
      Reached reads produces names workers w := by
  fun_induction collectFrom reads produces seen queue waiting with
  | case1 seen waiting => exact fun w found => absurd found List.not_mem_nil
  | case2 seen waiting name queue _ ih =>
    exact ih inside fun n mem => start n (List.mem_cons_of_mem _ mem)
  | case3 seen waiting name queue _ found ih =>
    have first : ∀ w ∈ found, Reached reads produces names workers w := fun w mem => by
      obtain ⟨waits, read⟩ := mem_readers.1 mem
      exact start name List.mem_cons_self w (inside w waits) read
    have next : ∀ n ∈ queue ++ found.filterMap produces, ∀ w ∈ workers, reads w n →
        Reached reads produces names workers w := fun n mem w worker read => by
      rcases List.mem_append.1 mem with queued | made
      · exact start n (List.mem_cons_of_mem _ queued) w worker read
      · obtain ⟨v, found, made⟩ := List.mem_filterMap.1 made
        exact .through (first v found) made worker read
    intro w mem
    rcases List.mem_append.1 mem with mem | mem
    · exact first w mem
    · exact ih (fun w mem => inside w (mem_others.1 mem).1) next w mem

/-- Nothing is missed: no waiting worker reads a name gone through, and then those that read a name
of the queue are found, and those that read what a worker found produces. -/
theorem collectFrom_closed {seen queue : List String} {waiting : List α}
    (passed : ∀ w ∈ waiting, ∀ name ∈ seen, ¬reads w name) :
    ∀ w ∈ waiting, ∀ name, reads w name →
      name ∈ queue ∨ (∃ v ∈ collectFrom reads produces seen queue waiting,
        produces v = some name) →
      w ∈ collectFrom reads produces seen queue waiting := by
  fun_induction collectFrom reads produces seen queue waiting with
  | case1 seen waiting =>
    rintro w - n - (queued | ⟨v, found, -⟩)
    · exact absurd queued List.not_mem_nil
    · exact absurd found List.not_mem_nil
  | case2 seen waiting name queue known ih =>
    rintro w waits n read (queued | made)
    · rcases List.mem_cons.1 queued with rfl | queued
      · exact absurd read (passed w waits n (List.contains_iff_mem.1 known))
      · exact ih passed w waits n read (Or.inl queued)
    · exact ih passed w waits n read (Or.inr made)
  | case3 seen waiting name queue _ found ih =>
    have passed' : ∀ w ∈ others reads name waiting, ∀ n ∈ name :: seen, ¬reads w n := by
      intro w waits n mem
      obtain ⟨waits, apart⟩ := mem_others.1 waits
      rcases List.mem_cons.1 mem with rfl | mem
      · exact apart
      · exact passed w waits n mem
    rintro w waits n read reason
    by_cases now : reads w name
    · exact List.mem_append_left _ (mem_readers.2 ⟨waits, now⟩)
    · refine List.mem_append_right _ (ih passed' w (mem_others.2 ⟨waits, now⟩) n read ?_)
      rcases reason with queued | ⟨v, mem, made⟩
      · rcases List.mem_cons.1 queued with rfl | queued
        · exact absurd read now
        · exact Or.inl (List.mem_append_left _ queued)
      · rcases List.mem_append.1 mem with mem | mem
        · exact Or.inl (List.mem_append_right _ (List.mem_filterMap.2 ⟨v, mem, made⟩))
        · exact Or.inr ⟨v, mem, made⟩

/-- **The search finds the workers that a change reaches.** -/
theorem mem_collect_iff {names : List String} {workers : List α} {w : α} :
    w ∈ collect reads produces names workers ↔ Reached reads produces names workers w := by
  have closed : ∀ w ∈ workers, ∀ name, reads w name →
      name ∈ names ∨ (∃ v ∈ collect reads produces names workers, produces v = some name) →
      w ∈ collect reads produces names workers :=
    collectFrom_closed fun _ _ _ mem => absurd mem List.not_mem_nil
  refine ⟨reached_of_mem_collectFrom (fun _ mem => mem)
    (fun name mem w worker read => .direct worker mem read) w, fun h => ?_⟩
  induction h with
  | direct mem changed read => exact closed _ mem _ read (Or.inl changed)
  | through earlier made mem read ih => exact closed _ mem _ read (Or.inr ⟨_, ih, made⟩)

end SheetScript.Reach
