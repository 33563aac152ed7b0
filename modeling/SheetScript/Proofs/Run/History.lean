import Mathlib.Data.Set.Card
import SheetScript.Proofs.Run.Subscriptions

/-!
# The registry and its history

What the registry of subscriptions holds is told by the calls that were made to it: a script reads
an attribute exactly if the pair was registered after the last call that clears it.

* `Subscriptions.ofHistory` is the registry after a history of calls.
* `Subscriptions.Stands` reads a pair off the history alone, and `Subscriptions.currentAfter` the
  script that subscribes by default.
* `Subscriptions.mem_dependencies_ofHistory` and `Subscriptions.mem_subscribers_ofHistory`: the two
  readings of the registry are both that relation.
* `Index.Tidy` says that an index has each key once, and no key without a set; then its length
  counts the keys that have one (`Index.Tidy.length_eq_encard`).
-/

namespace SheetScript

/-! ## Counting the keys of an index -/

namespace Index

variable {index : Index} {key name : String}

/-- Each key stands once, and has some text. -/
structure Tidy (index : Index) : Prop where
  sorted : Entries.Sorted index
  filled : ∀ entry ∈ index, entry.2 ≠ []

theorem tidy_empty : Tidy [] := ⟨List.Pairwise.nil, fun _ mem => absurd mem List.not_mem_nil⟩

theorem Tidy.insert (h : Tidy index) (key : String) {names : Names} (some : names ≠ []) :
    Tidy (Entries.insert index key names) := by
  refine ⟨h.sorted.insert key names, fun entry mem => ?_⟩
  rcases Entries.mem_of_mem_insert mem with rfl | mem
  · exact some
  · exact h.filled entry mem

theorem Tidy.erase (h : Tidy index) (key : String) : Tidy (Entries.erase index key) :=
  ⟨h.sorted.erase key, fun entry mem => h.filled entry (Entries.mem_of_mem_erase mem).1⟩

theorem Tidy.add (h : Tidy index) (key name : String) : Tidy (add index key name) := by
  refine h.insert key fun empty => ?_
  have mem : name ∈ Names.insert (get index key) name := Names.mem_insert.2 (Or.inl rfl)
  rw [empty] at mem
  exact absurd mem List.not_mem_nil

theorem Tidy.drop (h : Tidy index) (key name : String) : Tidy (drop index key name) := by
  unfold Index.drop
  split
  · exact h
  · dsimp only
    split_ifs with empty
    · exact h.erase key
    · exact h.insert key fun eq => empty (List.isEmpty_iff.2 eq)

theorem Tidy.mem_keys_iff (h : Tidy index) : key ∈ Entries.keys index ↔ get index key ≠ [] := by
  rw [Entries.mem_keys_iff_isSome, get]
  cases found : Entries.find? index key with
  | none => simp
  | some names => simpa using h.filled _ (Entries.mem_of_find? found)

/-- The keys of a tidy index are those that have some text. -/
theorem Tidy.length_eq_encard (h : Tidy index) :
    (index.length : ℕ∞) = {key | get index key ≠ []}.encard := by
  have keys : {key | get index key ≠ []} = ((Entries.keys index).toFinset : Set String) := by
    ext key
    simp [h.mem_keys_iff]
  rw [keys, Set.encard_coe_eq_coe_finsetCard, List.toFinset_card_of_nodup h.sorted.nodup,
    Entries.keys, List.length_map]

end Index

namespace Subscriptions

/-! ## Calls -/

/-- A call that changes the registry. -/
inductive Call where
  | setCurrent (script : String)
  | clearCurrent
  | register (attributes : List String)
  | registerFor (script : String) (attributes : List String)
  | clear (script : String)
  | clearAll
  deriving DecidableEq, Repr

/-- The registry after a call. To register without a current script is refused. -/
def perform (s : Subscriptions) : Call → Subscriptions
  | .setCurrent script => s.setCurrent script
  | .clearCurrent => s.clearCurrent
  | .register attributes =>
    match s.register attributes with
    | .ok s => s
    | .error _ => s
  | .registerFor script attributes => s.registerFor script attributes
  | .clear script => s.clear script
  | .clearAll => s.clearAll

/-- The registry after a history of calls. -/
def ofHistory (history : List Call) : Subscriptions := history.foldl perform {}

/-- What a call makes of the current script, if it says something about it. -/
def Call.current? : Call → Option (Option String)
  | setCurrent script => some (some script)
  | clearCurrent => some none
  | _ => none

/-- The current script after a history: what the last call says that says something. -/
def currentAfter (history : List Call) : Option String :=
  (history.filterMap Call.current?).getLast?.join

/-- A call registers a pair, when that script is the current one. -/
def Call.Registers (current : Option String) (script attr : String) : Call → Prop
  | register attributes => current = some script ∧ attr ∈ attributes
  | registerFor id attributes => id = script ∧ attr ∈ attributes
  | _ => False

/-- A call drops the pairs of a script. -/
def Call.Clears (script : String) : Call → Prop
  | clear id => id = script
  | clearAll => True
  | _ => False

/-- A pair was registered, and its script has not been cleared since. -/
def Stands (history : List Call) (script attr : String) : Prop :=
  ∃ before call after, history = before ++ call :: after ∧
    call.Registers (currentAfter before) script attr ∧ ∀ later ∈ after, ¬later.Clears script

variable {s : Subscriptions} {script attr : String} {history : List Call} {call : Call}

theorem register_eq (s : Subscriptions) (attributes : List String) :
    s.register attributes = match s.current with
      | none => .error .noScriptContext
      | some script => .ok (s.registerFor script attributes) := rfl

theorem current_registerFor (s : Subscriptions) (script : String) (attributes : List String) :
    (s.registerFor script attributes).current = s.current := by
  induction attributes generalizing s with
  | nil => rfl
  | cons attr rest ih => exact ih (s.add script attr)

/-! ## One call -/

theorem current_perform (s : Subscriptions) (call : Call) :
    (s.perform call).current = call.current?.getD s.current := by
  cases call with
  | register attributes =>
    rw [perform, register_eq]
    cases current : s.current with
    | none => exact current
    | some script => exact (current_registerFor s script attributes).trans current
  | registerFor script attributes => exact current_registerFor s script attributes
  | _ => rfl

/-- A call adds the pairs that it registers, and drops those of the scripts that it clears. -/
theorem mem_dependencies_perform : attr ∈ (s.perform call).dependencies script ↔
    call.Registers s.current script attr ∨
      attr ∈ s.dependencies script ∧ ¬call.Clears script := by
  cases call with
  | setCurrent id => simp [perform, Call.Registers, Call.Clears, setCurrent, dependencies]
  | clearCurrent => simp [perform, Call.Registers, Call.Clears, clearCurrent, dependencies]
  | register attributes =>
    rw [perform, register_eq]
    cases current : s.current with
    | none => simp [Call.Registers, Call.Clears]
    | some id =>
      simp only [mem_dependencies_registerFor, Call.Registers, Call.Clears, Option.some.injEq,
        not_false_eq_true, and_true, eq_comm]
  | registerFor id attributes =>
    simp only [perform, mem_dependencies_registerFor, Call.Registers, Call.Clears,
      not_false_eq_true, and_true, eq_comm]
  | clear id =>
    simp only [perform, mem_dependencies_clear, Call.Registers, Call.Clears, false_or, ne_eq,
      eq_comm]
  | clearAll =>
    simp [perform, Call.Registers, Call.Clears, clearAll, dependencies, Index.get, Entries.find?]

theorem Inverse.perform (h : s.Inverse) (call : Call) : (s.perform call).Inverse := by
  cases call with
  | setCurrent id => exact h
  | clearCurrent => exact h
  | register attributes =>
    rw [Subscriptions.perform, register_eq]
    cases s.current with
    | none => exact h
    | some id => exact h.registerFor id attributes
  | registerFor id attributes => exact h.registerFor id attributes
  | clear id => exact h.clear id
  | clearAll =>
    intro id n
    simp [Subscriptions.perform, clearAll, dependencies, subscribers, Index.get, Entries.find?]

/-- Both indices are tidy. -/
structure Tidy (s : Subscriptions) : Prop where
  byScript : s.byScript.Tidy
  byAttribute : s.byAttribute.Tidy

theorem tidy_empty : Tidy {} := ⟨Index.tidy_empty, Index.tidy_empty⟩

theorem Tidy.registerFor (h : s.Tidy) (script : String) (attributes : List String) :
    (s.registerFor script attributes).Tidy := by
  induction attributes generalizing s with
  | nil => exact h
  | cons attr rest ih =>
    exact ih (s := s.add script attr) ⟨h.byScript.add script attr, h.byAttribute.add attr script⟩

theorem Tidy.clear (h : s.Tidy) (script : String) : (s.clear script).Tidy := by
  have drops : ∀ (attributes : List String) (index : Index), index.Tidy →
      (attributes.foldl (fun index attr => Index.drop index attr script) index).Tidy := by
    intro attributes
    induction attributes with
    | nil => exact fun _ tidy => tidy
    | cons attr rest ih => exact fun index tidy => ih _ (tidy.drop attr script)
  exact ⟨h.byScript.erase script, drops _ _ h.byAttribute⟩

theorem Tidy.perform (h : s.Tidy) (call : Call) : (s.perform call).Tidy := by
  cases call with
  | setCurrent id => exact ⟨h.byScript, h.byAttribute⟩
  | clearCurrent => exact ⟨h.byScript, h.byAttribute⟩
  | register attributes =>
    rw [Subscriptions.perform, register_eq]
    cases s.current with
    | none => exact h
    | some id => exact h.registerFor id attributes
  | registerFor id attributes => exact h.registerFor id attributes
  | clear id => exact h.clear id
  | clearAll => exact ⟨Index.tidy_empty, Index.tidy_empty⟩

/-! ## A history -/

theorem ofHistory_append (history more : List Call) :
    ofHistory (history ++ more) = more.foldl perform (ofHistory history) :=
  List.foldl_append

theorem ofHistory_concat (history : List Call) (call : Call) :
    ofHistory (history ++ [call]) = (ofHistory history).perform call :=
  ofHistory_append history [call]

theorem currentAfter_concat (history : List Call) (call : Call) :
    currentAfter (history ++ [call]) = call.current?.getD (currentAfter history) := by
  unfold currentAfter
  rw [List.filterMap_append]
  cases change : call.current? with
  | none => simp [change]
  | some current => simp [change]

theorem current_ofHistory (history : List Call) :
    (ofHistory history).current = currentAfter history := by
  induction history using List.reverseRecOn with
  | nil => rfl
  | append_singleton history call ih =>
    rw [ofHistory_concat, current_perform, currentAfter_concat, ih]

theorem stands_concat : Stands (history ++ [call]) script attr ↔
    call.Registers (currentAfter history) script attr ∨
      Stands history script attr ∧ ¬call.Clears script := by
  constructor
  · rintro ⟨before, first, after, split, registers, kept⟩
    rcases List.eq_nil_or_concat after with rfl | ⟨after, last, rfl⟩
    · obtain ⟨rfl, eq⟩ := List.append_inj' split rfl
      obtain rfl := List.singleton_inj.1 eq
      exact Or.inl registers
    · rw [List.concat_eq_append, ← List.cons_append, ← List.append_assoc] at split
      obtain ⟨rfl, eq⟩ := List.append_inj' split rfl
      obtain rfl := List.singleton_inj.1 eq
      refine Or.inr ⟨⟨before, first, after, rfl, registers, fun later mem => ?_⟩, ?_⟩
      · exact kept later (List.concat_eq_append ▸ List.mem_append_left _ mem)
      · exact kept _ (List.concat_eq_append ▸ List.mem_append_right _ List.mem_cons_self)
  · rintro (registers | ⟨⟨before, first, after, rfl, registers, kept⟩, stays⟩)
    · exact ⟨history, call, [], rfl, registers, fun _ mem => absurd mem List.not_mem_nil⟩
    · refine ⟨before, first, after ++ [call], by simp, registers, fun later mem => ?_⟩
      rcases List.mem_append.1 mem with mem | mem
      · exact kept later mem
      · obtain rfl := List.mem_singleton.1 mem
        exact stays

/-- **What a script reads is what its history says.** -/
theorem mem_dependencies_ofHistory :
    attr ∈ (ofHistory history).dependencies script ↔ Stands history script attr := by
  induction history using List.reverseRecOn with
  | nil => simp [ofHistory, dependencies, Index.get, Entries.find?, Stands]
  | append_singleton history call ih =>
    rw [ofHistory_concat, mem_dependencies_perform, stands_concat, current_ofHistory, ih]

theorem inverse_ofHistory (history : List Call) : (ofHistory history).Inverse := by
  induction history using List.reverseRecOn with
  | nil => exact inverse_empty
  | append_singleton history call ih =>
    rw [ofHistory_concat]
    exact ih.perform call

theorem mem_subscribers_ofHistory :
    script ∈ (ofHistory history).subscribers attr ↔ Stands history script attr :=
  (inverse_ofHistory history script attr).symm.trans mem_dependencies_ofHistory

theorem tidy_ofHistory (history : List Call) : (ofHistory history).Tidy := by
  induction history using List.reverseRecOn with
  | nil => exact tidy_empty
  | append_singleton history call ih =>
    rw [ofHistory_concat]
    exact ih.perform call

/-! ## A refusal -/

theorem register_eq_error_iff {attributes : List String} {e : ScriptError} :
    s.register attributes = .error e ↔ s.current = none ∧ e = .noScriptContext := by
  rw [register_eq]
  cases s.current with
  | none => simp [eq_comm]
  | some script => simp

end Subscriptions

end SheetScript
