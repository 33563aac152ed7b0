import Mathlib.Data.Fintype.Pigeonhole
import Mathlib.Logic.Relation
import SheetScript.Cascade.Order

/-!
# The order of work and its cycles

`Order.sort` takes the earliest position that waits for nothing, and when all wait for another it
takes the earliest of all. That position need not lie on a cycle: it may only lead to one.

* Every position comes up once (`sort_perm`).
* `broken needs n` are the positions below `n` that are taken although they wait. They can be told
  without the sort: in turn, each position that leads to a cycle once the earlier ones are gone.
* A position that another waits for comes before it exactly when it leads to no cycle past the
  positions broken before the other (`mem_before_iff`), and always when there is no cycle
  (`mem_before_of_acyclic`).
-/

namespace SheetScript.Order

open Relation

variable (needs : Nat → List Nat)

/-! ## Positions that lead to a cycle -/

/-- One position waits for another, and neither is gone. -/
def Waits (gone : Set Nat) (i j : Nat) : Prop := j ∈ needs i ∧ i ∉ gone ∧ j ∉ gone

/-- A position leads to a cycle of positions that are not gone. -/
def Hangs (gone : Set Nat) (i : Nat) : Prop :=
  ∃ k, ReflTransGen (Waits needs gone) i k ∧ TransGen (Waits needs gone) k k

/-- The positions below a bound at which a cycle is broken: in turn, each one that leads to a cycle
once the earlier ones are gone. -/
def broken : Nat → Set Nat
  | 0 => ∅
  | n + 1 => {i | i ∈ broken n ∨ i = n ∧ Hangs needs (broken n) n}

variable {needs}

theorem Hangs.step {gone : Set Nat} {i : Nat} (h : Hangs needs gone i) :
    ∃ j, Waits needs gone i j ∧ Hangs needs gone j := by
  obtain ⟨k, path, cycle⟩ := h
  rcases path.cases_head with rfl | ⟨j, first, rest⟩
  · obtain ⟨j, first, rest⟩ := TransGen.head'_iff.1 cycle
    exact ⟨j, first, i, rest, cycle⟩
  · exact ⟨j, first, k, rest, cycle⟩

theorem Hangs.not_gone {gone : Set Nat} {i : Nat} (h : Hangs needs gone i) : i ∉ gone := by
  obtain ⟨_, first, -⟩ := h.step
  exact first.2.1

/-- With fewer positions gone, more lead to a cycle. -/
theorem Hangs.anti {gone gone' : Set Nat} (h : gone ⊆ gone') {i : Nat}
    (hi : Hangs needs gone' i) : Hangs needs gone i := by
  obtain ⟨k, path, cycle⟩ := hi
  have fewer : ∀ a b, Waits needs gone' a b → Waits needs gone a b :=
    fun _ _ w => ⟨w.1, fun ha => w.2.1 (h ha), fun hb => w.2.2 (h hb)⟩
  exact ⟨k, ReflTransGen.mono fewer _ _ path, TransGen.mono fewer _ _ cycle⟩

/-- When each of finitely many positions waits for another one of them, all lead to a cycle. -/
theorem hangs_of_stuck {gone : Set Nat} {waiting : List Nat} (here : ∀ i ∈ waiting, i ∉ gone)
    (stuck : ∀ i ∈ waiting, ∃ j ∈ needs i, j ∈ waiting) {i : Nat} (hi : i ∈ waiting) :
    Hangs needs gone i := by
  -- follow a need of each position: the walk stays within a finite list, so it comes back
  choose! next hneeds hnext using stuck
  have mem : ∀ n, next^[n] i ∈ waiting := fun n => by
    induction n with
    | zero => exact hi
    | succ n ih => rw [Function.iterate_succ_apply']; exact hnext _ ih
  have walk : ∀ n, Waits needs gone (next^[n] i) (next^[n + 1] i) := fun n => by
    rw [Function.iterate_succ_apply']
    exact ⟨hneeds _ (mem n), here _ (mem n), here _ (hnext _ (mem n))⟩
  obtain ⟨m, n, hne, heq⟩ := Finite.exists_ne_map_eq_of_infinite
    fun n => (⟨next^[n] i, mem n⟩ : {j // j ∈ waiting})
  have heq : next^[m] i = next^[n] i := congrArg Subtype.val heq
  have path : ∀ n, ReflTransGen (Waits needs gone) i (next^[n] i) := fun n => by
    induction n with
    | zero => exact .refl
    | succ n ih => exact ih.tail (walk n)
  have ahead : ∀ a d, TransGen (Waits needs gone) (next^[a] i) (next^[a + (d + 1)] i) :=
    fun a d => by
      induction d with
      | zero => exact .single (walk a)
      | succ d ih => exact ih.tail (walk (a + (d + 1)))
  rcases Nat.lt_or_gt_of_ne hne with h | h
  · obtain ⟨d, rfl⟩ := Nat.exists_eq_add_of_lt h
    have cycle := ahead m d
    rw [← Nat.add_assoc, ← heq] at cycle
    exact ⟨_, path m, cycle⟩
  · obtain ⟨d, rfl⟩ := Nat.exists_eq_add_of_lt h
    have cycle := ahead n d
    rw [← Nat.add_assoc, heq] at cycle
    exact ⟨_, path n, cycle⟩

theorem broken_mono {m n : Nat} (h : m ≤ n) : broken needs m ⊆ broken needs n := by
  induction h with
  | refl => exact subset_rfl
  | step _ ih => exact fun i hi => Or.inl (ih hi)

theorem broken_eq_of_not_hangs {m n : Nat} (h : m ≤ n)
    (clear : ∀ i, m ≤ i → i < n → ¬Hangs needs (broken needs m) i) :
    broken needs n = broken needs m := by
  induction h with
  | refl => rfl
  | @step n h ih =>
    have ih := ih fun i hm hn => clear i hm (by omega)
    refine Set.Subset.antisymm (fun i hi => ?_) (broken_mono (Nat.le_succ_of_le h))
    rcases hi with hi | ⟨rfl, hangs⟩
    · exact ih ▸ hi
    · exact absurd (ih ▸ hangs) (clear i h (by omega))

/-! ## One step of the sort -/

/-- What the choice of a position says: it waits for nothing, or else it is the first of positions
that all wait. -/
theorem next?_cases {waiting : List Nat} {i : Nat} (h : next? needs waiting = some i) :
    i ∈ waiting ∧ ((∀ j ∈ needs i, j ∉ waiting) ∨
      waiting.head? = some i ∧ ∀ k ∈ waiting, ∃ j ∈ needs k, j ∈ waiting) := by
  rw [next?, Option.or_eq_some_iff] at h
  rcases h with h | ⟨stuck, head⟩
  · exact ⟨List.mem_of_find?_eq_some h, Or.inl (by simpa using List.find?_some h)⟩
  · refine ⟨List.mem_of_mem_head? head, Or.inr ⟨head, fun k hk => ?_⟩⟩
    simpa using List.find?_eq_none.1 stuck k hk

theorem next?_isSome {waiting : List Nat} (h : waiting ≠ []) : (next? needs waiting).isSome := by
  cases waiting with
  | nil => exact absurd rfl h
  | cons i rest => simp [next?]

theorem sortFrom_perm {room : Nat} {waiting : List Nat} (h : waiting.length ≤ room) :
    (sortFrom needs room waiting).Perm waiting := by
  induction room generalizing waiting with
  | zero => rw [List.length_eq_zero_iff.1 (by omega : waiting.length = 0)]; rfl
  | succ room ih =>
    rw [sortFrom]
    split
    next last =>
      by_cases empty : waiting = []
      · rw [empty]
      · have found : (next? needs waiting).isSome := next?_isSome empty
        simp [last] at found
    next i next =>
      have mem := (next?_cases next).1
      have shorter : (waiting.erase i).length ≤ room := by
        rw [List.length_erase_of_mem mem]; omega
      exact ((ih shorter).cons i).trans (List.perm_cons_erase mem).symm

/-- **Every position comes up once.** -/
theorem sort_perm (needs : Nat → List Nat) (count : Nat) :
    (sort needs count).Perm (List.range count) :=
  sortFrom_perm (List.length_range (n := count)).le

/-! ## The run of the sort -/

/-- Where the sort stands: cycles have been broken at the positions below `bound` only, and what
still leads to a cycle is waiting. -/
structure Stage (needs : Nat → List Nat) (bound : Nat) (waiting : List Nat) : Prop where
  sorted : waiting.Pairwise (· < ·)
  bound_le : ∀ i ∈ waiting, bound ≤ i
  hang : ∀ i, Hangs needs (broken needs bound) i → i ∈ waiting

namespace Stage

variable {bound : Nat} {waiting : List Nat}

theorem nodup (h : Stage needs bound waiting) : waiting.Nodup :=
  h.sorted.imp fun lt => Nat.ne_of_lt lt

theorem not_gone (h : Stage needs bound waiting) {i : Nat} (hi : i ∈ waiting) :
    i ∉ broken needs bound := by
  have small : ∀ n, ∀ j ∈ broken needs n, j < n := fun n => by
    induction n with
    | zero => exact fun _ hj => absurd hj (Set.notMem_empty _)
    | succ n ih =>
      rintro j (hj | ⟨rfl, -⟩)
      · exact (ih j hj).trans (Nat.lt_succ_self n)
      · exact Nat.lt_succ_self j
  exact fun gone => absurd (h.bound_le i hi) (Nat.not_le_of_lt (small bound i gone))

theorem head_le (h : Stage needs bound waiting) {i : Nat} (head : waiting.head? = some i) :
    ∀ j ∈ waiting, i ≤ j := by
  cases waiting with
  | nil => exact fun _ hj => absurd hj List.not_mem_nil
  | cons a rest =>
    obtain rfl : a = i := by simpa using head
    rintro j (_ | ⟨_, hj⟩)
    · exact le_rfl
    · exact (List.rel_of_pairwise_cons h.sorted hj).le

/-- No cycle is broken between the bound and the first position that waits. -/
theorem broken_head (h : Stage needs bound waiting) {i : Nat} (head : waiting.head? = some i) :
    broken needs i = broken needs bound :=
  broken_eq_of_not_hangs (h.bound_le i (List.mem_of_mem_head? head)) fun j _ lt hangs =>
    absurd (h.head_le head j (h.hang j hangs)) (Nat.not_le_of_lt lt)

/-- **What the position taken needs is still waiting exactly when it leads to a cycle**, past the
positions broken before. -/
theorem mem_waiting_iff (h : Stage needs bound waiting) {s p : Nat}
    (next : next? needs waiting = some s) (hp : p ∈ needs s) :
    p ∈ waiting ↔ Hangs needs (broken needs s) p := by
  obtain ⟨mem, ready | ⟨head, stuck⟩⟩ := next?_cases next
  · refine ⟨fun hw => absurd hw (ready p hp), fun hangs => h.hang p ?_⟩
    exact hangs.anti (broken_mono (h.bound_le s mem))
  · rw [h.broken_head head]
    exact ⟨hangs_of_stuck (fun _ => h.not_gone) stuck, h.hang p⟩

/-- The sort goes on from one stage to another. -/
theorem step (h : Stage needs bound waiting) {i : Nat} (next : next? needs waiting = some i) :
    ∃ bound', Stage needs bound' (waiting.erase i) := by
  have sorted := h.sorted.sublist (List.erase_sublist (a := i))
  have keeps : ∀ j ∈ waiting, j ≠ i → j ∈ waiting.erase i := fun j hj hne =>
    (List.mem_erase_of_ne hne).2 hj
  obtain ⟨mem, ready | ⟨head, stuck⟩⟩ := next?_cases next
  · refine ⟨bound, sorted, fun j hj => h.bound_le j (List.mem_of_mem_erase hj), fun j hj => ?_⟩
    -- a position that needs nothing that waits leads to no cycle
    refine keeps j (h.hang j hj) ?_
    rintro rfl
    obtain ⟨k, first, hangs⟩ := hj.step
    exact ready k first.1 (h.hang k hangs)
  · have hangs := hangs_of_stuck (fun _ => h.not_gone) stuck mem
    have gone : i ∈ broken needs (i + 1) := Or.inr ⟨rfl, by rwa [h.broken_head head]⟩
    refine ⟨i + 1, sorted, fun j hj => ?_, fun j hj => ?_⟩
    · obtain ⟨hne, hj⟩ := h.nodup.mem_erase_iff.1 hj
      exact Nat.lt_of_le_of_ne (h.head_le head j hj) hne.symm
    · refine keeps j (h.hang j ?_) ?_
      · refine hj.anti ?_
        exact broken_mono ((h.bound_le i mem).trans (Nat.le_succ i))
      · rintro rfl
        exact hj.not_gone gone

theorem mem_before_iff (h : Stage needs bound waiting) {room : Nat} {before after : List Nat}
    {s p : Nat} (run : sortFrom needs room waiting = before ++ s :: after) (hp : p ∈ needs s) :
    (p ∈ waiting ∧ p ∉ before) ↔ Hangs needs (broken needs s) p := by
  induction room generalizing bound waiting before with
  | zero => simp [sortFrom] at run
  | succ room ih =>
    rw [sortFrom] at run
    split at run
    next => simp at run
    next i next =>
      cases before with
      | nil =>
        obtain ⟨rfl, -⟩ := List.cons.inj run
        simpa using h.mem_waiting_iff next hp
      | cons a before =>
        rw [List.cons_append, List.cons.injEq] at run
        obtain ⟨rfl, run⟩ := run
        obtain ⟨bound', stage⟩ := h.step next
        rw [← ih stage run, h.nodup.mem_erase_iff, List.mem_cons]
        tauto

end Stage

theorem stage_range {count : Nat} (inside : ∀ i, ∀ j ∈ needs i, i < count) :
    Stage needs 0 (List.range count) where
  sorted := List.pairwise_lt_range
  bound_le := fun _ _ => Nat.zero_le _
  hang := fun i hangs => by
    obtain ⟨j, first, -⟩ := hangs.step
    exact List.mem_range.2 (inside i j first.1)

/-- **When what a position needs comes before it.** It does exactly when it leads to no cycle, past
the positions at which a cycle was broken before. -/
theorem mem_before_iff {count : Nat} (inside : ∀ i, ∀ j ∈ needs i, i < count ∧ j < count)
    {before after : List Nat} {s p : Nat} (run : sort needs count = before ++ s :: after)
    (hp : p ∈ needs s) : p ∈ before ↔ ¬Hangs needs (broken needs s) p := by
  have stage := stage_range fun i j hj => (inside i j hj).1
  have waits : p ∈ List.range count := List.mem_range.2 (inside s p hp).2
  rw [← stage.mem_before_iff run hp]
  tauto

/-- Without cycles, what a position needs comes before it. -/
theorem mem_before_of_acyclic {count : Nat} (inside : ∀ i, ∀ j ∈ needs i, i < count ∧ j < count)
    (acyclic : ∀ k, ¬TransGen (fun i j => j ∈ needs i) k k) {before after : List Nat} {s p : Nat}
    (run : sort needs count = before ++ s :: after) (hp : p ∈ needs s) : p ∈ before := by
  refine (mem_before_iff inside run hp).2 ?_
  rintro ⟨k, -, cycle⟩
  exact acyclic k (TransGen.mono (fun _ _ w => w.1) _ _ cycle)

end SheetScript.Order
