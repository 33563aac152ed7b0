import SheetScript.Proofs.Cascade.Frame
import SheetScript.Proofs.Cascade.Order

/-!
# The order of the scripts

`Cascade.dependencyOrder` puts scripts in an order in which what a script reads is produced before
it, as far as it can. Of several scripts that produce one name, only the last counts.

* `Cascade.dependencyOrder_perm`: each script comes up once, whatever cycles there are.
* `Cascade.producer_before_iff`: when the script that counts for a name comes before a reader of the
  name. It need not lie on a cycle to be left behind: it is enough that it leads to one, and that
  nothing on the way has been taken out of turn.
* `Cascade.producer_before_of_acyclic`: without cycles it always does.
-/

namespace SheetScript

open Relation

/-- In a list without repetition, one item comes before another when it is in front of it. -/
theorem pair_sublist_iff {α : Type} {before after : List α} {a b : α}
    (distinct : (before ++ b :: after).Nodup) :
    [a, b].Sublist (before ++ b :: after) ↔ a ∈ before := by
  have apart := List.nodup_append.1 distinct
  have later : b ∉ after := (List.nodup_cons.1 apart.2.1).1
  refine ⟨fun h => ?_, fun h => (List.singleton_sublist.2 h).append (by simp)⟩
  obtain ⟨front, back, split, front_sub, back_sub⟩ := List.sublist_append_iff.1 h
  cases front with
  | cons first rest =>
    obtain rfl : a = first := (List.cons.inj split).1
    exact front_sub.subset List.mem_cons_self
  | nil =>
    -- then both would be in the back, and the second one twice
    obtain rfl : back = [a, b] := split.symm
    rcases List.sublist_cons_iff.1 back_sub with sub | ⟨_, eq, sub⟩
    · exact absurd (sub.subset (by simp)) later
    · obtain ⟨-, rfl⟩ := List.cons.inj eq
      exact absurd (sub.subset List.mem_cons_self) later

namespace Cascade

variable {c : Cascade} {scripts : List Script}

/-- One script of a list reads what another one, or itself, produces. -/
def DependsOn (sheet : Sheet) (reads : Script → List String) (scripts : List Script)
    (s t : Script) : Prop :=
  s ∈ scripts ∧ t ∈ scripts ∧ ∃ name ∈ reads s, producedName? sheet t = some name

instance (sheet : Sheet) (reads : Script → List String) (scripts : List Script) (s t : Script) :
    Decidable (DependsOn sheet reads scripts s t) := by
  unfold DependsOn
  infer_instance

/-- The names that a script is subscribed to. -/
def subscribed (c : Cascade) (script : Script) : List String :=
  c.engine.subscriptions.dependencies script.id

/-! ## Needs -/

theorem producer?_cases {sheet : Sheet} {name : String} {p : Nat}
    (h : producer? sheet scripts name = some p) :
    ∃ producer, scripts[p]? = some producer ∧ producedName? sheet producer = some name := by
  have mem := List.mem_of_getLast? h
  obtain ⟨-, found⟩ := List.mem_filter.1 mem
  exact Option.bind_eq_some_iff.1 (beq_iff_eq.1 found)

/-- A name that some script produces has a script that counts for it. -/
theorem producer?_isSome {sheet : Sheet} {name : String} {t : Script} (mem : t ∈ scripts)
    (made : producedName? sheet t = some name) : (producer? sheet scripts name).isSome := by
  obtain ⟨i, lt, rfl⟩ := List.mem_iff_getElem.1 mem
  unfold producer?
  refine List.getLast?_isSome.2 (List.ne_nil_of_mem (List.mem_filter.2 ⟨List.mem_range.2 lt, ?_⟩))
  rw [List.getElem?_eq_getElem lt]
  simpa using made

theorem mem_needs {i j : Nat} :
    j ∈ c.needs scripts i ↔ ∃ script, scripts[i]? = some script ∧
      (∃ name ∈ c.subscribed script, producer? c.sheet scripts name = some j) ∧ j ≠ i := by
  unfold needs subscribed
  cases scripts[i]? with
  | none => simp
  | some script => simp

theorem needs_inside (c : Cascade) (scripts : List Script) :
    ∀ i, ∀ j ∈ c.needs scripts i, i < scripts.length ∧ j < scripts.length := by
  intro i j mem
  obtain ⟨script, found, ⟨name, -, produces⟩, -⟩ := mem_needs.1 mem
  obtain ⟨producer, found', -⟩ := producer?_cases produces
  exact ⟨(List.getElem?_eq_some_iff.1 found).1, (List.getElem?_eq_some_iff.1 found').1⟩

/-- What a position needs, the script there depends on. -/
theorem dependsOn_of_mem_needs {i j : Nat} {s t : Script} (hs : scripts[i]? = some s)
    (ht : scripts[j]? = some t) (mem : j ∈ c.needs scripts i) :
    DependsOn c.sheet c.subscribed scripts s t := by
  obtain ⟨script, found, ⟨name, read, produces⟩, -⟩ := mem_needs.1 mem
  obtain ⟨producer, found', made⟩ := producer?_cases produces
  obtain rfl : s = script := Option.some.inj (hs.symm.trans found)
  obtain rfl : t = producer := Option.some.inj (ht.symm.trans found')
  exact ⟨List.mem_of_getElem? hs, List.mem_of_getElem? ht, name, read, made⟩

/-! ## The order -/

/-- **Each script comes up once in the order.** -/
theorem dependencyOrder_perm (c : Cascade) (scripts : List Script) :
    (c.dependencyOrder scripts).Perm scripts := by
  have all : (List.range scripts.length).filterMap (fun i => scripts[i]?) = scripts := by
    induction scripts with
    | nil => rfl
    | cons s rest ih =>
      rw [List.length_cons, List.range_succ_eq_map, List.filterMap_cons, List.filterMap_map]
      exact congrArg (s :: ·) ih
  have perm := (Order.sort_perm (c.needs scripts) scripts.length).filterMap fun i => scripts[i]?
  rwa [all] at perm

theorem mem_dependencyOrder {script : Script} :
    script ∈ c.dependencyOrder scripts ↔ script ∈ scripts :=
  (c.dependencyOrder_perm scripts).mem_iff

/-- Where a script stands in the order, by positions. -/
theorem dependencyOrder_split {s : Nat} {reader : Script} (hs : scripts[s]? = some reader) :
    ∃ before after, Order.sort (c.needs scripts) scripts.length = before ++ s :: after ∧
      c.dependencyOrder scripts = before.filterMap (fun i => scripts[i]?) ++
        reader :: after.filterMap fun i => scripts[i]? := by
  have lt := (List.getElem?_eq_some_iff.1 hs).1
  have mem := (Order.sort_perm (c.needs scripts) scripts.length).mem_iff.2 (List.mem_range.2 lt)
  obtain ⟨before, after, split⟩ := List.append_of_mem mem
  refine ⟨before, after, split, ?_⟩
  rw [dependencyOrder, split, List.filterMap_append, List.filterMap_cons_some hs]

/-- In the order, one script comes before another when its position is sorted before. -/
theorem sublist_dependencyOrder_iff (distinct : scripts.Nodup) {p s : Nat}
    {producer reader : Script} (hp : scripts[p]? = some producer) (hs : scripts[s]? = some reader)
    {before after : List Nat}
    (run : Order.sort (c.needs scripts) scripts.length = before ++ s :: after) :
    [producer, reader].Sublist (c.dependencyOrder scripts) ↔ p ∈ before := by
  have split : c.dependencyOrder scripts = before.filterMap (fun i => scripts[i]?) ++
      reader :: after.filterMap fun i => scripts[i]? := by
    rw [dependencyOrder, run, List.filterMap_append, List.filterMap_cons_some hs]
  have nodup := (c.dependencyOrder_perm scripts).nodup_iff.2 distinct
  rw [split] at nodup ⊢
  rw [pair_sublist_iff nodup, List.mem_filterMap]
  refine ⟨fun ⟨q, mem, hq⟩ => ?_, fun mem => ⟨p, mem, hp⟩⟩
  have lt := (List.getElem?_eq_some_iff.1 hp).1
  rwa [(List.getElem?_inj lt distinct).1 (hp.trans hq.symm)]

/-- **When a producer comes before its reader.** Of the scripts of a list that produce a name, let
the one that counts be at `p`. It comes before a reader of the name exactly when it leads to no
cycle, past the scripts at which a cycle was broken before the reader's turn. -/
theorem producer_before_iff (c : Cascade) (scripts : List Script) (distinct : scripts.Nodup)
    {p s : Nat} {producer reader : Script} (hp : scripts[p]? = some producer)
    (hs : scripts[s]? = some reader) (apart : p ≠ s) {name : String}
    (read : name ∈ c.subscribed reader) (made : producer? c.sheet scripts name = some p) :
    [producer, reader].Sublist (c.dependencyOrder scripts) ↔
      ¬Order.Hangs (c.needs scripts) (Order.broken (c.needs scripts) s) p := by
  obtain ⟨before, after, run, -⟩ := dependencyOrder_split (c := c) hs
  have need : p ∈ c.needs scripts s := mem_needs.2 ⟨reader, hs, ⟨name, read, made⟩, apart⟩
  rw [sublist_dependencyOrder_iff distinct hp hs run,
    Order.mem_before_iff (c.needs_inside scripts) run need]

/-- Without cycles, a script comes after all that it depends on, if each name has one producer. -/
theorem producer_before_of_acyclic (distinct : scripts.Nodup)
    (single : ∀ t ∈ scripts, ∀ u ∈ scripts, ∀ name, producedName? c.sheet t = some name →
      producedName? c.sheet u = some name → t = u)
    (acyclic : ∀ s, ¬TransGen (DependsOn c.sheet c.subscribed scripts) s s)
    {before after : List Script} {s t : Script}
    (split : c.dependencyOrder scripts = before ++ s :: after)
    (depends : DependsOn c.sheet c.subscribed scripts s t) : t ∈ before := by
  obtain ⟨hs, ht, name, read, made⟩ := depends
  obtain ⟨i, hi⟩ := List.mem_iff_getElem?.1 hs
  obtain ⟨j, hj⟩ := Option.isSome_iff_exists.1 (producer?_isSome ht made)
  have found : scripts[j]? = some t := by
    obtain ⟨u, found, made'⟩ := producer?_cases hj
    rwa [single t ht u (List.mem_of_getElem? found) name made made']
  have apart : j ≠ i := by
    rintro rfl
    obtain rfl : s = t := Option.some.inj (hi.symm.trans found)
    exact acyclic s (.single ⟨hs, hs, name, read, made⟩)
  have need : j ∈ c.needs scripts i := mem_needs.2 ⟨s, hi, ⟨name, read, hj⟩, apart⟩
  -- a cycle of positions is one of the scripts there
  have positions : ∀ k, ¬TransGen (fun i j => j ∈ c.needs scripts i) k k := fun k cycle => by
    have step : ∀ i j, j ∈ c.needs scripts i → DependsOn c.sheet c.subscribed scripts
        (scripts[i]?.getD default) (scripts[j]?.getD default) := fun i j mem => by
      obtain ⟨hi, hj⟩ := c.needs_inside scripts i j mem
      rw [List.getElem?_eq_getElem hi, List.getElem?_eq_getElem hj]
      exact dependsOn_of_mem_needs (List.getElem?_eq_getElem hi) (List.getElem?_eq_getElem hj) mem
    exact acyclic _ (TransGen.lift (fun i => scripts[i]?.getD default) step _ _ cycle)
  obtain ⟨front, back, run, -⟩ := dependencyOrder_split (c := c) hi
  have first := Order.mem_before_of_acyclic (c.needs_inside scripts) positions run need
  have ordered := (sublist_dependencyOrder_iff distinct found hi run).2 first
  have nodup := (c.dependencyOrder_perm scripts).nodup_iff.2 distinct
  rw [split] at ordered nodup
  exact (pair_sublist_iff nodup).1 ordered

/-- Without cycles, no script depends on a later one. -/
theorem dependencyOrder_pairwise (distinct : scripts.Nodup)
    (single : ∀ t ∈ scripts, ∀ u ∈ scripts, ∀ name, producedName? c.sheet t = some name →
      producedName? c.sheet u = some name → t = u)
    (acyclic : ∀ s, ¬TransGen (DependsOn c.sheet c.subscribed scripts) s s) :
    (c.dependencyOrder scripts).Pairwise
      fun s t => ¬DependsOn c.sheet c.subscribed scripts s t := by
  refine List.pairwise_iff_forall_sublist.2 fun {s t} pair depends => ?_
  obtain ⟨front, back, split, hs, ht⟩ := List.cons_sublist_iff.1 pair
  obtain ⟨before, after, rfl⟩ := List.append_of_mem hs
  rw [List.append_assoc, List.cons_append] at split
  have first := producer_before_of_acyclic distinct single acyclic split depends
  -- it stands before and after the script, though no script comes twice
  have nodup := (c.dependencyOrder_perm scripts).nodup_iff.2 distinct
  rw [split] at nodup
  refine (List.nodup_append.1 nodup).2.2 t first t ?_ rfl
  exact List.mem_cons_of_mem _ (List.mem_append_right _ (List.singleton_sublist.1 ht))

/-! ## A producer that is left behind -/

/-- A script of the attribute of that id, which adds one to the attribute that it reads. -/
def increment (id attr read : String) : Script :=
  .new id "r1" .attr (some attr)
    ("subscribe(\"" ++ read ++ "\")\nOwner.Attribute(\"" ++ read ++ "\").value + 1")

/-- A script, the producer of what it reads, and two scripts that read each other; the producer
reads one of them. -/
def knotted : Cascade where
  engine :=
    { config := {}
      cache := { capacity := 512 }
      subscriptions := ((({} : Subscriptions).registerFor "a-s" ["P"]).registerFor "b-p"
        ["X"]).registerFor "c-x" ["Y"] |>.registerFor "d-y" ["X"] }
  sheet :=
    { characterId := "char-1"
      rulesetId := "r1"
      attributes := [⟨"s", "S", .null⟩, ⟨"p", "P", .null⟩, ⟨"x", "X", .null⟩, ⟨"y", "Y", .null⟩] }
  scripts :=
    [("a-s", increment "a-s" "s" "P"), ("b-p", increment "b-p" "p" "X"),
      ("c-x", increment "c-x" "x" "Y"), ("d-y", increment "d-y" "y" "X")]

theorem wellFormed_knotted : knotted.WellFormed where
  sorted := by
    unfold Entries.Sorted
    decide
  ids := by decide
  inverse := (((Subscriptions.inverse_empty.registerFor _ _).registerFor _ _).registerFor _
    _).registerFor _ _
  faithful := fun _ _ => Cache.faithful_of_absent rfl

/-- There, the producer comes before its reader exactly if it leads to no cycle once the reader is
out of the way. -/
theorem knotted_producer_before_iff :
    knotted.members.Nodup ∧ "P" ∈ knotted.subscribed (increment "a-s" "s" "P") ∧
      producer? knotted.sheet knotted.members "P" = some 1 ∧
      ([increment "b-p" "p" "X", increment "a-s" "s" "P"].Sublist
          (knotted.dependencyOrder knotted.members) ↔
        ¬Order.Hangs (knotted.needs knotted.members)
          (Order.broken (knotted.needs knotted.members) 0) 1) := by
  have read : "P" ∈ knotted.subscribed (increment "a-s" "s" "P") := by decide
  have made : producer? knotted.sheet knotted.members "P" = some 1 := by decide
  have distinct := wellFormed_knotted.nodup_members
  exact ⟨distinct, read, made,
    producer_before_iff knotted knotted.members distinct rfl rfl (by decide) read made⟩

/-- A producer that does not depend on its reader need not come before it: a cycle that it leads to
leaves it behind, although it does not lie on that cycle. -/
theorem exists_producer_after_reader :
    ¬∀ (c : Cascade) (scripts : List Script) (producer reader : Script), c.WellFormed →
      scripts.Nodup → (∀ script ∈ scripts, script ∈ c.members) →
      DependsOn c.sheet c.subscribed scripts reader producer →
      ¬TransGen (DependsOn c.sheet c.subscribed scripts) producer reader →
      [producer, reader].Sublist (c.dependencyOrder scripts) := by
  intro claim
  -- what the producer depends on stays apart from the reader
  have step : ∀ s ∈ knotted.members, ∀ t ∈ knotted.members, s.id ≠ "a-s" →
      DependsOn knotted.sheet knotted.subscribed knotted.members s t → t.id ≠ "a-s" := by decide
  have apart : ∀ t, TransGen (DependsOn knotted.sheet knotted.subscribed knotted.members)
      (increment "b-p" "p" "X") t → t.id ≠ "a-s" := fun t path => by
    induction path with
    | single first => exact step _ first.1 _ first.2.1 (by decide) first
    | tail _ next ih => exact step _ next.1 _ next.2.1 ih next
  have before := claim knotted knotted.members (increment "b-p" "p" "X") (increment "a-s" "s" "P")
    wellFormed_knotted wellFormed_knotted.nodup_members (fun _ mem => mem) (by decide)
    fun path => apart _ path rfl
  have ids := before.map (·.id)
  have order : (knotted.dependencyOrder knotted.members).map (·.id) =
    ["a-s", "b-p", "c-x", "d-y"] := by decide
  rw [order] at ids
  exact absurd ids (by decide)

end Cascade

end SheetScript
