import Mathlib.Order.Bounds.Basic
import SheetScript.Proofs.Cascade.DependencyOrder

/-!
# The least order

Where no scripts wait for each other in a circle, `Order.sort` gives one of the orders in which
nothing comes before what it waits for: the first of them, with the orders compared by the first
position in which they differ.

* `Order.next?_isLeast`: what is taken next is the first position that waits for nothing.
* `Order.sort_isLeast`, `Order.sort_next_isLeast`: so it goes with a whole run.
* `Cascade.Awaits` is what one script of a list waits for, told without `Cascade.needs`, and
  `Cascade.dependencyOrder_isLeast` is the order of a list of scripts.
-/

namespace SheetScript

open Relation

namespace Order

variable {needs : Nat → List Nat}

/-- Without cycles, the position taken is the first one that waits for nothing. -/
theorem next?_isLeast (acyclic : ∀ k, ¬TransGen (fun i j => j ∈ needs i) k k) {waiting : List Nat}
    (sorted : waiting.Pairwise (· < ·)) {i : Nat} (next : next? needs waiting = some i) :
    IsLeast {k | k ∈ waiting ∧ ∀ j ∈ needs k, j ∉ waiting} i := by
  rw [next?, Option.or_eq_some_iff] at next
  rcases next with found | ⟨stuck, head⟩
  · obtain ⟨ready, before, after, rfl, passed⟩ := List.find?_eq_some_iff_append.1 found
    refine ⟨⟨by simp, by simpa using ready⟩, ?_⟩
    rintro k ⟨mem, free⟩
    rcases List.mem_append.1 mem with earlier | later
    · -- an earlier one has been passed over, so it waits for something
      have waits := passed k earlier
      rw [Bool.not_eq_true', List.all_eq_false] at waits
      obtain ⟨j, need, here⟩ := waits
      exact absurd (by simpa [or_iff_not_imp_left] using here) (free j need)
    · rcases List.mem_cons.1 later with rfl | later
      · exact le_rfl
      · have ordered := (List.pairwise_append.1 sorted).2.1
        exact (List.rel_of_pairwise_cons ordered later).le
  · -- when all wait for another, there is a cycle
    have all : ∀ k ∈ waiting, ∃ j ∈ needs k, j ∈ waiting := fun k hk => by
      simpa using List.find?_eq_none.1 stuck k hk
    obtain ⟨k, -, cycle⟩ := hangs_of_stuck (fun _ _ => Set.notMem_empty _) all
      (List.mem_of_mem_head? head)
    exact absurd (TransGen.mono (fun _ _ w => w.1) _ _ cycle) (acyclic k)

/-- The sort of any positions is the least of their orders in which none comes before what it
waits for. -/
theorem sortFrom_isLeast (acyclic : ∀ k, ¬TransGen (fun i j => j ∈ needs i) k k) {room : Nat}
    {waiting : List Nat} (sorted : waiting.Pairwise (· < ·)) (enough : waiting.length ≤ room) :
    IsLeast {order | order.Perm waiting ∧ order.Pairwise fun i j => j ∉ needs i}
      (sortFrom needs room waiting) := by
  induction room generalizing waiting with
  | zero =>
    obtain rfl := List.length_eq_zero_iff.1 (by omega : waiting.length = 0)
    refine ⟨⟨.refl _, .nil⟩, ?_⟩
    rintro order ⟨perm, -⟩
    rw [perm.eq_nil, sortFrom]
  | succ room ih =>
    have perm : (sortFrom needs (room + 1) waiting).Perm waiting := sortFrom_perm enough
    rw [sortFrom] at perm ⊢
    cases next : next? needs waiting with
    | none =>
      rw [next] at perm
      obtain rfl := perm.symm.eq_nil
      refine ⟨⟨.refl _, .nil⟩, ?_⟩
      rintro order ⟨perm, -⟩
      rw [perm.eq_nil]
    | some i =>
      rw [next] at perm
      obtain ⟨⟨mem, ready⟩, first⟩ := next?_isLeast acyclic sorted next
      have shorter : (waiting.erase i).length ≤ room := by
        rw [List.length_erase_of_mem mem]
        omega
      obtain ⟨⟨rest_perm, proper⟩, least⟩ :=
        ih (sorted.sublist (List.erase_sublist (a := i))) shorter
      refine ⟨⟨perm, List.pairwise_cons.2 ⟨fun j hj need => ?_, proper⟩⟩, ?_⟩
      · exact ready j need (List.mem_of_mem_erase (rest_perm.mem_iff.1 hj))
      rintro order ⟨order_perm, order_proper⟩
      cases order with
      | nil => exact absurd (order_perm.symm.eq_nil ▸ mem) List.not_mem_nil
      | cons k order =>
        have ahead := List.pairwise_cons.1 order_proper
        -- the first of any such order waits for nothing, so it is not before `i`
        have free : ∀ j ∈ needs k, j ∉ waiting := fun j need here => by
          rcases List.mem_cons.1 (order_perm.mem_iff.2 here) with rfl | later
          · exact acyclic j (.single need)
          · exact ahead.1 j later need
        have le := first ⟨order_perm.mem_iff.1 List.mem_cons_self, free⟩
        rcases Nat.lt_or_eq_of_le le with lt | rfl
        · exact le_of_lt (List.cons_lt_cons_iff.2 (.inl lt))
        · refine List.cons_le_cons i (least ⟨?_, ahead.2⟩)
          exact (order_perm.trans (List.perm_cons_erase mem)).cons_inv

/-- In a run of the sort, each position is the first one whose needs are done. -/
theorem sortFrom_next_isLeast (acyclic : ∀ k, ¬TransGen (fun i j => j ∈ needs i) k k) {room : Nat}
    {waiting : List Nat} (sorted : waiting.Pairwise (· < ·)) {before after : List Nat} {i : Nat}
    (run : sortFrom needs room waiting = before ++ i :: after) :
    IsLeast {k | k ∈ waiting ∧ k ∉ before ∧ ∀ j ∈ needs k, j ∈ waiting → j ∈ before} i := by
  induction room generalizing waiting before with
  | zero => simp [sortFrom] at run
  | succ room ih =>
    rw [sortFrom] at run
    split at run
    next => simp at run
    next a next =>
      cases before with
      | nil =>
        obtain ⟨rfl, -⟩ := List.cons.inj run
        simpa using next?_isLeast acyclic sorted next
      | cons b before =>
        rw [List.cons_append, List.cons.injEq] at run
        obtain ⟨rfl, run⟩ := run
        have nodup : waiting.Nodup := sorted.imp fun lt => Nat.ne_of_lt lt
        have step := ih (sorted.sublist (List.erase_sublist (a := a))) run
        convert step using 3 with k
        simp only [nodup.mem_erase_iff, List.mem_cons]
        grind

/-- **The least order.** Without cycles, the sort is the least of the orders in which no position
comes before one that it waits for. -/
theorem sort_isLeast (acyclic : ∀ k, ¬TransGen (fun i j => j ∈ needs i) k k) (count : Nat) :
    IsLeast {order | order.Perm (List.range count) ∧ order.Pairwise fun i j => j ∉ needs i}
      (sort needs count) :=
  sortFrom_isLeast acyclic List.pairwise_lt_range List.length_range.le

/-- Without cycles, each position of the sort is the first one whose needs are done. -/
theorem sort_next_isLeast (acyclic : ∀ k, ¬TransGen (fun i j => j ∈ needs i) k k) {count : Nat}
    (inside : ∀ i, ∀ j ∈ needs i, i < count ∧ j < count) {before after : List Nat} {i : Nat}
    (run : sort needs count = before ++ i :: after) :
    IsLeast {k | k < count ∧ k ∉ before ∧ ∀ j ∈ needs k, j ∈ before} i := by
  convert sortFrom_next_isLeast acyclic List.pairwise_lt_range run using 3 with k
  rw [List.mem_range]
  refine and_congr_right fun _ => and_congr_right fun _ => ?_
  refine forall₂_congr fun j need => ?_
  simp [(inside k j need).2]

end Order

namespace Cascade

variable {c : Cascade} {scripts : List Script}

/-- A name counts for the last position of a list whose script produces it. -/
theorem producer?_eq_some_iff {sheet : Sheet} {name : String} {p : Nat} :
    producer? sheet scripts name = some p ↔
      (∃ producer, scripts[p]? = some producer ∧ producedName? sheet producer = some name) ∧
        ∀ q later, p < q → scripts[q]? = some later → producedName? sheet later ≠ some name := by
  have made : ∀ q, q ∈ (List.range scripts.length).filter (fun i =>
      (scripts[i]?.bind (producedName? sheet)) == some name) ↔
        ∃ producer, scripts[q]? = some producer ∧ producedName? sheet producer = some name := by
    intro q
    rw [List.mem_filter, beq_iff_eq, Option.bind_eq_some_iff, List.mem_range]
    refine and_iff_right_of_imp ?_
    rintro ⟨producer, found, -⟩
    exact (List.getElem?_eq_some_iff.1 found).1
  -- the last of the positions is the greatest one
  have last : ∀ p, producer? sheet scripts name = some p → ∀ q later, p < q →
      scripts[q]? = some later → producedName? sheet later ≠ some name := by
    intro p h q later lt found same
    obtain ⟨front, split⟩ := List.getLast?_eq_some_iff.1 h
    have sorted := (List.pairwise_lt_range (n := scripts.length)).filter fun i =>
      (scripts[i]?.bind (producedName? sheet)) == some name
    have mem := (made q).2 ⟨later, found, same⟩
    rw [split] at sorted mem
    rcases List.mem_append.1 mem with earlier | eq
    · have before := (List.pairwise_append.1 sorted).2.2 q earlier p (List.mem_singleton_self p)
      omega
    · rw [List.mem_singleton.1 eq] at lt
      exact absurd lt (Nat.lt_irrefl p)
  refine ⟨fun h => ⟨producer?_cases h, last p h⟩, ?_⟩
  rintro ⟨⟨producer, found, same⟩, final⟩
  obtain ⟨q, hq⟩ := Option.isSome_iff_exists.1
    (producer?_isSome (List.mem_of_getElem? found) same)
  obtain ⟨other, found', same'⟩ := producer?_cases hq
  rcases Nat.lt_trichotomy p q with lt | rfl | gt
  · exact absurd same' (final q other lt found')
  · exact hq
  · exact absurd same (last q hq p producer gt found)

/-- The script at one position of a list waits for the one at another: it reads a name that the
other one produces, and no later script of the list does. -/
def Awaits (c : Cascade) (scripts : List Script) (i j : Nat) : Prop :=
  i ≠ j ∧ ∃ reader producer name, scripts[i]? = some reader ∧ scripts[j]? = some producer ∧
    name ∈ c.subscribed reader ∧ producedName? c.sheet producer = some name ∧
      ∀ k later, j < k → scripts[k]? = some later → producedName? c.sheet later ≠ some name

theorem awaits_iff {i j : Nat} : c.Awaits scripts i j ↔ j ∈ c.needs scripts i := by
  rw [mem_needs, Awaits]
  constructor
  · rintro ⟨apart, reader, producer, name, hi, hj, read, made, last⟩
    exact ⟨reader, hi, ⟨name, read, producer?_eq_some_iff.2 ⟨⟨producer, hj, made⟩, last⟩⟩,
      apart.symm⟩
  · rintro ⟨reader, hi, ⟨name, read, counts⟩, apart⟩
    obtain ⟨⟨producer, hj, made⟩, last⟩ := producer?_eq_some_iff.1 counts
    exact ⟨apart.symm, reader, producer, name, hi, hj, read, made, last⟩

/-- **The order of a list of scripts.** It has each script once. Unless scripts wait for each other
in a circle, it is the least order by position in which no script comes before one that it waits
for, and each script in it is the first one left for which all that it waits for is done. -/
theorem dependencyOrder_isLeast (c : Cascade) (scripts : List Script) :
    (c.dependencyOrder scripts).Perm scripts ∧
      ((∀ i, ¬TransGen (c.Awaits scripts) i i) →
        ∃ order, c.dependencyOrder scripts = order.filterMap (fun i => scripts[i]?) ∧
          IsLeast {order | order.Perm (List.range scripts.length) ∧
            order.Pairwise fun i j => ¬c.Awaits scripts i j} order ∧
          ∀ before i after, order = before ++ i :: after →
            IsLeast {k | k < scripts.length ∧ k ∉ before ∧
              ∀ j, c.Awaits scripts k j → j ∈ before} i) := by
  refine ⟨c.dependencyOrder_perm scripts, fun acyclic => ?_⟩
  have same : c.Awaits scripts = fun i j => j ∈ c.needs scripts i :=
    funext₂ fun i j => propext awaits_iff
  rw [same] at acyclic ⊢
  refine ⟨Order.sort (c.needs scripts) scripts.length, rfl, Order.sort_isLeast acyclic _, ?_⟩
  intro before i after split
  exact Order.sort_next_isLeast acyclic (c.needs_inside scripts) split

/-- A script, two that produce what it reads, and one that produces what the first of these reads.
Each comes before what it reads. -/
def stacked : Cascade where
  engine :=
    { config := {}
      cache := { capacity := 512 }
      subscriptions := ((({} : Subscriptions).registerFor "a-total" ["Mid"]).registerFor "b-mid"
        ["Base"]).registerFor "c-base" ["Level"] |>.registerFor "d-mid" ["Level"] }
  sheet :=
    { characterId := "char-1"
      rulesetId := "r1"
      attributes := [⟨"total", "Total", .null⟩, ⟨"mid", "Mid", .null⟩, ⟨"base", "Base", .null⟩] }
  scripts :=
    [("a-total", increment "a-total" "total" "Mid"), ("b-mid", increment "b-mid" "mid" "Base"),
      ("c-base", increment "c-base" "base" "Level"), ("d-mid", increment "d-mid" "mid" "Level")]

/-- There, the first script waits for the last one only, and the order turns all around. -/
theorem stacked_dependencyOrder_isLeast :
    (∀ i, ¬TransGen (stacked.Awaits stacked.members) i i) ∧
      Order.sort (stacked.needs stacked.members) 4 = [2, 1, 3, 0] ∧
      ∃ order, stacked.dependencyOrder stacked.members =
          order.filterMap (fun i => stacked.members[i]?) ∧
        IsLeast {order | order.Perm (List.range 4) ∧
          order.Pairwise fun i j => ¬stacked.Awaits stacked.members i j} order ∧
        ∀ before i after, order = before ++ i :: after →
          IsLeast {k | k < 4 ∧ k ∉ before ∧
            ∀ j, stacked.Awaits stacked.members k j → j ∈ before} i := by
  -- how many scripts, one behind the other, a script waits for
  have height : ∀ i j, stacked.Awaits stacked.members i j →
      [1, 1, 0, 0].getD j 0 < [1, 1, 0, 0].getD i 0 := by
    intro i j awaits
    have need := awaits_iff.1 awaits
    have lt := (stacked.needs_inside stacked.members i j need).1
    have all : ∀ i < 4, ∀ j ∈ stacked.needs stacked.members i,
        [1, 1, 0, 0].getD j 0 < [1, 1, 0, 0].getD i 0 := by decide
    exact all i lt j need
  have acyclic : ∀ i, ¬TransGen (stacked.Awaits stacked.members) i i := by
    intro i cycle
    have falls := TransGen.lift (r := stacked.Awaits stacked.members)
      (fun i => [1, 1, 0, 0].getD i 0) (p := fun a b => b < a) height _ _ cycle
    exact absurd (transGen_eq_self (r := fun a b : Nat => b < a) ▸ falls) (Nat.lt_irrefl _)
  exact ⟨acyclic, by decide, (dependencyOrder_isLeast stacked stacked.members).2 acyclic⟩

end Cascade

end SheetScript
