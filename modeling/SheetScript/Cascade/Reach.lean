/-!
# What a change reaches

Names change; workers read names, and each may produce one. `Reach.collect` lists the workers that a
change reaches, directly or through what other workers produce, in the order in which a breadth
first search finds them.

The search ends because a worker is found once: each step takes a name off the queue, and each
worker found puts at most one name on it.
-/

namespace SheetScript.Reach

variable {α : Type}

/-- The workers that read a name. -/
def readers (reads : α → String → Bool) (name : String) (workers : List α) : List α :=
  workers.filter fun w => reads w name

/-- The workers that do not read a name. -/
def others (reads : α → String → Bool) (name : String) (workers : List α) : List α :=
  workers.filter fun w => !reads w name

theorem length_readers_add_others (reads : α → String → Bool) (name : String)
    (workers : List α) :
    (readers reads name workers).length + (others reads name workers).length = workers.length := by
  induction workers with
  | nil => rfl
  | cons w rest ih =>
    simp only [readers, others] at ih ⊢
    by_cases h : reads w name = true
    · simp [h]; omega
    · simp [h]; omega

/-- Go through the queue of names. `seen` are the names gone through, and `waiting` the workers not
found yet. -/
def collectFrom (reads : α → String → Bool) (produces : α → Option String) (seen : List String)
    (queue : List String) (waiting : List α) : List α :=
  match queue with
  | [] => []
  | name :: queue =>
    if seen.contains name then collectFrom reads produces seen queue waiting
    else
      let found := readers reads name waiting
      found ++ collectFrom reads produces (name :: seen) (queue ++ found.filterMap produces)
        (others reads name waiting)
termination_by queue.length + waiting.length
decreasing_by
  · simp
  · have made : ((readers reads name waiting).filterMap produces).length
        ≤ (readers reads name waiting).length := List.length_filterMap_le ..
    have parts := length_readers_add_others reads name waiting
    simp only [List.length_append, List.length_cons]
    omega

/-- The workers that a change of the names reaches. -/
def collect (reads : α → String → Bool) (produces : α → Option String) (names : List String)
    (workers : List α) : List α :=
  collectFrom reads produces [] names workers

end SheetScript.Reach
