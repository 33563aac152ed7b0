import SheetScript.Proofs.Entries
import SheetScript.Run.Subscriptions

/-!
# The registry as a relation

The registry keeps its pairs twice. Each operation is described by what it does to both readings,
`Subscriptions.dependencies` and `Subscriptions.subscribers`.

* `Subscriptions.Inverse` says that the two readings are one relation; every operation keeps it.
* Registering adds the pairs of one script (`mem_dependencies_registerFor`), and clearing a script
  drops them (`mem_dependencies_clear`); neither touches another script.
-/

namespace SheetScript

namespace Index

theorem mem_get_add {index : Index} {key name k n : String} :
    n ∈ get (add index key name) k ↔ k = key ∧ n = name ∨ n ∈ get index k := by
  by_cases h : k = key
  · subst k
    rw [get, add, Entries.find?_insert_self, Option.getD_some, Names.mem_insert]
    simp
  · rw [get, add, Entries.find?_insert_of_ne _ _ h]
    simp [h, get]

theorem mem_get_drop {index : Index} {key name k n : String} :
    n ∈ get (drop index key name) k ↔ n ∈ get index k ∧ ¬(k = key ∧ n = name) := by
  have absent : ∀ names, Entries.find? index key = some names → k = key → get index k = names :=
    fun names found h => by rw [get, h, found, Option.getD_some]
  cases found : Entries.find? index key with
  | none =>
    have empty : k = key → get index k = [] := fun h => by rw [get, h, found, Option.getD_none]
    by_cases h : k = key
    · simp [drop, found, empty h]
    · simp [drop, found, h]
  | some names =>
    by_cases left : (Names.erase names name).isEmpty
    · rw [drop, found]
      simp only [left, if_true, get, Entries.find?_erase]
      by_cases h : k = key
      · have gone : ∀ m ∈ names, m = name := fun m hm => by
          by_contra ne
          have := Names.mem_erase.2 ⟨hm, ne⟩
          rw [List.isEmpty_iff.1 left] at this
          exact absurd this List.not_mem_nil
        have := absent names found h
        rw [get] at this
        simp only [h, if_true, Option.getD_none, List.not_mem_nil, true_and, false_iff, not_and,
          not_not]
        exact fun hn => gone n (by rwa [← this, h])
      · simp [h]
    · rw [drop, found]
      simp only [left, Bool.false_eq_true, if_false, get, Entries.find?_insert]
      by_cases h : k = key
      · have := absent names found h
        rw [get, h] at this
        simp only [h, if_true, Option.getD_some, Names.mem_erase, true_and, this]
      · simp [h]

end Index

namespace Subscriptions

variable {s : Subscriptions} {script id attr n : String}

/-! ## Registering -/

theorem mem_dependencies_add :
    n ∈ (s.add script attr).dependencies id ↔
      id = script ∧ n = attr ∨ n ∈ s.dependencies id := Index.mem_get_add

theorem mem_subscribers_add :
    id ∈ (s.add script attr).subscribers n ↔
      n = attr ∧ id = script ∨ id ∈ s.subscribers n := Index.mem_get_add

theorem mem_dependencies_registerFor {names : List String} :
    n ∈ (s.registerFor script names).dependencies id ↔
      id = script ∧ n ∈ names ∨ n ∈ s.dependencies id := by
  induction names generalizing s with
  | nil => simp [registerFor]
  | cons name names ih =>
    have step : s.registerFor script (name :: names) =
      (s.add script name).registerFor script names := rfl
    rw [step, ih, mem_dependencies_add, List.mem_cons]
    tauto

theorem mem_subscribers_registerFor {names : List String} :
    id ∈ (s.registerFor script names).subscribers n ↔
      n ∈ names ∧ id = script ∨ id ∈ s.subscribers n := by
  induction names generalizing s with
  | nil => simp [registerFor]
  | cons name names ih =>
    have step : s.registerFor script (name :: names) =
      (s.add script name).registerFor script names := rfl
    rw [step, ih, mem_subscribers_add, List.mem_cons]
    tauto

theorem registerFor_append (s : Subscriptions) (script : String) (names more : List String) :
    s.registerFor script (names ++ more) = (s.registerFor script names).registerFor script more :=
  List.foldl_append

/-! ## Clearing -/

theorem mem_dependencies_clear :
    n ∈ (s.clear script).dependencies id ↔ n ∈ s.dependencies id ∧ id ≠ script := by
  rw [dependencies, Index.get, clear, Entries.find?_erase]
  by_cases h : id = script <;> simp [h, dependencies, Index.get]

theorem mem_subscribers_clear :
    id ∈ (s.clear script).subscribers n ↔
      id ∈ s.subscribers n ∧ ¬(n ∈ s.dependencies script ∧ id = script) := by
  have drops : ∀ (names : List String) (index : Index),
      id ∈ Index.get (names.foldl (fun index attr => Index.drop index attr script) index) n ↔
        id ∈ Index.get index n ∧ ¬(n ∈ names ∧ id = script) := fun names => by
    induction names with
    | nil => simp
    | cons name names ih =>
      intro index
      rw [List.foldl_cons, ih, Index.mem_get_drop, List.mem_cons]
      tauto
  exact drops _ _

theorem dependencies_clear_self (s : Subscriptions) (script : String) :
    (s.clear script).dependencies script = [] := by
  rw [dependencies, Index.get, clear, Entries.find?_erase, if_pos rfl, Option.getD_none]

@[simp] theorem clear_clear (s : Subscriptions) (script : String) :
    (s.clear script).clear script = s.clear script := by
  have none_left := s.dependencies_clear_self script
  generalize cleared : s.clear script = t at none_left
  have erased : Entries.erase t.byScript script = t.byScript := by
    rw [← cleared]
    simp [clear, Entries.erase]
  rw [clear, none_left, erased]
  rfl

/-! ## The list of a script -/

theorem dependencies_add_self (s : Subscriptions) (script attr : String) :
    (s.add script attr).dependencies script = Names.insert (s.dependencies script) attr := by
  rw [dependencies, Index.get, add, Index.add, Entries.find?_insert_self, Option.getD_some]
  rfl

theorem dependencies_add_of_ne (s : Subscriptions) (h : id ≠ script) (attr : String) :
    (s.add script attr).dependencies id = s.dependencies id := by
  rw [dependencies, Index.get, add, Index.add, Entries.find?_insert_of_ne _ _ h]
  rfl

/-- What a script reads after it has registered depends on what it read before, and on nothing else
in the registry. -/
theorem dependencies_registerFor_self (s : Subscriptions) (script : String) (names : List String) :
    (s.registerFor script names).dependencies script =
      names.foldl Names.insert (s.dependencies script) := by
  induction names generalizing s with
  | nil => rfl
  | cons name names ih =>
    have step : s.registerFor script (name :: names) =
      (s.add script name).registerFor script names := rfl
    rw [step, ih, dependencies_add_self, List.foldl_cons]

theorem dependencies_registerFor_of_ne (s : Subscriptions) (h : id ≠ script)
    (names : List String) : (s.registerFor script names).dependencies id = s.dependencies id := by
  induction names generalizing s with
  | nil => rfl
  | cons name names ih =>
    have step : s.registerFor script (name :: names) =
      (s.add script name).registerFor script names := rfl
    rw [step, ih, dependencies_add_of_ne s h]

theorem dependencies_clear_of_ne (s : Subscriptions) (h : id ≠ script) :
    (s.clear script).dependencies id = s.dependencies id := by
  rw [dependencies, Index.get, clear, Entries.find?_erase, if_neg h]
  rfl

/-! ## One relation -/

/-- The two readings of the registry are one relation. -/
def Inverse (s : Subscriptions) : Prop :=
  ∀ script attr, attr ∈ s.dependencies script ↔ script ∈ s.subscribers attr

theorem inverse_empty : Inverse {} := fun _ _ => by
  simp [dependencies, subscribers, Index.get, Entries.find?]

theorem Inverse.registerFor (h : s.Inverse) (script : String) (names : List String) :
    (s.registerFor script names).Inverse := fun id n => by
  rw [mem_dependencies_registerFor, mem_subscribers_registerFor, h id n, and_comm]

theorem Inverse.clear (h : s.Inverse) (script : String) : (s.clear script).Inverse :=
  fun id n => by
    rw [mem_dependencies_clear, mem_subscribers_clear, ← h id n]
    by_cases hs : id = script
    · subst id
      simp
    · simp [hs]

/-! ## Other scripts -/

/-- Two registries agree on all scripts but one. -/
def AgreeApart (script : String) (s t : Subscriptions) : Prop :=
  ∀ id, id ≠ script → ∀ n, (n ∈ t.dependencies id ↔ n ∈ s.dependencies id) ∧
    (id ∈ t.subscribers n ↔ id ∈ s.subscribers n)

theorem AgreeApart.refl (script : String) (s : Subscriptions) : AgreeApart script s s :=
  fun _ _ _ => ⟨Iff.rfl, Iff.rfl⟩

theorem AgreeApart.trans {t u : Subscriptions} (h : AgreeApart script s t)
    (h' : AgreeApart script t u) : AgreeApart script s u := fun id hid n =>
  ⟨(h' id hid n).1.trans (h id hid n).1, (h' id hid n).2.trans (h id hid n).2⟩

theorem agreeApart_registerFor (s : Subscriptions) (script : String) (names : List String) :
    AgreeApart script s (s.registerFor script names) := fun id hid n => by
  rw [mem_dependencies_registerFor, mem_subscribers_registerFor]
  simp [hid]

theorem agreeApart_clear (s : Subscriptions) (script : String) :
    AgreeApart script s (s.clear script) := fun id hid n => by
  rw [mem_dependencies_clear, mem_subscribers_clear]
  simp [hid]

end Subscriptions

end SheetScript
