import Mathlib.Data.Finset.Card
import Mathlib.Data.List.Induction
import SheetScript.Engine.Cache
import SheetScript.Proofs.Entries

/-!
# Scripts by their last use

The reference for the cache is a list of the scripts held, those asked for last in front. It has no
clock: a script that is asked for comes to the front, and room is made at the back.

* `Recency.fetch` is what a look-up does to the list, and `Recency.ofCalls` is the list after some
  calls.
* `Recency.nodup_ofCalls`: each script is held once.
* `Recency.find?_ofCalls_of_few` says how long a script stays held.
-/

namespace SheetScript

/-! ## The reference -/

/-- A call to the cache. -/
inductive Cache.Call where
  | fetch (id source : String)
  | invalidate (id : String)
  | clear
  deriving DecidableEq, Repr

/-- The source that a call asks for. -/
def Cache.Call.source? : Call → Option String
  | .fetch _ source => some source
  | .invalidate _ | .clear => none

/-- The script that a call brings to the front. -/
def Cache.Call.fetched? : Call → Option String
  | .fetch id source => if (Program.ofSource? source).isOk then some id else none
  | .invalidate _ | .clear => none

/-- A call is about other scripts than this one. -/
def Cache.Call.Spares (id : String) : Call → Prop
  | .fetch other _ | .invalidate other => other ≠ id
  | .clear => False

/-- The sources that calls ask for. -/
def Cache.sources (calls : List Call) : List String := calls.filterMap Call.source?

theorem filterMap_concat {α β : Type} (f : α → Option β) (l : List α) (a : α) :
    (l ++ [a]).filterMap f = l.filterMap f ++ (f a).toList := by
  rw [List.filterMap_append]
  cases h : f a <;> simp [h]

theorem Cache.sources_append (calls others : List Call) :
    sources (calls ++ others) = sources calls ++ sources others := List.filterMap_append ..

theorem Cache.sources_concat (calls : List Call) (call : Call) :
    sources (calls ++ [call]) = sources calls ++ call.source?.toList := filterMap_concat ..

/-- The scripts held and their sources, those asked for last in front. -/
abbrev Recency := List (String × String)

namespace Recency

/-- Drop scripts from the back until fewer than `capacity` remain; none if it is `0`. -/
def makeRoom (capacity : Nat) (l : Recency) : Recency :=
  if capacity = 0 then l else l.take (capacity - 1)

/-- Ask for the program of a source. The script comes to the front; one that is not held needs room
first. If the source is no program, the script is dropped and nothing else. -/
def fetch (capacity : Nat) (l : Recency) (id source : String) : Recency :=
  match Program.ofSource? source with
  | .error _ => Entries.erase l id
  | .ok _ =>
    (id, source) :: if Entries.contains l id then Entries.erase l id else l.makeRoom capacity

/-- How the program of a source is come by. -/
def outcome (l : Recency) (id source : String) : FetchOutcome :=
  match Entries.find? l id with
  | none => .miss
  | some held => if held = source then .hit else .replaced

/-- The list after a call. -/
def perform (capacity : Nat) (l : Recency) : Cache.Call → Recency
  | .fetch id source => l.fetch capacity id source
  | .invalidate id => Entries.erase l id
  | .clear => []

/-- The list after some calls. -/
def ofCalls (capacity : Nat) (calls : List Cache.Call) : Recency :=
  calls.foldl (perform capacity) []

variable {capacity : Nat} {l : Recency} {id source other held : String}

theorem ofCalls_concat (capacity : Nat) (calls : List Cache.Call) (call : Cache.Call) :
    ofCalls capacity (calls ++ [call]) = (ofCalls capacity calls).perform capacity call := by
  simp [ofCalls]

theorem makeRoom_sublist (capacity : Nat) (l : Recency) : (l.makeRoom capacity).Sublist l := by
  unfold makeRoom
  split_ifs
  · exact .refl l
  · exact List.take_sublist ..

theorem fetch_of_error {e : ScriptError} (parsed : Program.ofSource? source = .error e) :
    l.fetch capacity id source = Entries.erase l id := by
  rw [fetch, parsed]

theorem fetch_of_ok {p : Program} (parsed : Program.ofSource? source = .ok p) :
    l.fetch capacity id source =
      (id, source) ::
        if Entries.contains l id then Entries.erase l id else l.makeRoom capacity := by
  rw [fetch, parsed]

theorem outcome_eq_replaced_iff :
    l.outcome id source = .replaced ↔ ∃ held, Entries.find? l id = some held ∧ held ≠ source := by
  unfold outcome
  cases Entries.find? l id with
  | none => simp
  | some held => by_cases same : held = source <;> simp [same]

/-- What is held comes from a call that asked for it. -/
theorem mem_of_mem_fetch {entry : String × String} (h : entry ∈ l.fetch capacity id source) :
    entry = (id, source) ∨ entry ∈ l := by
  unfold fetch at h
  split at h
  next => exact Or.inr (Entries.mem_of_mem_erase h).1
  next =>
    rcases List.mem_cons.1 h with eq | h
    · exact Or.inl eq
    · split_ifs at h
      · exact Or.inr (Entries.mem_of_mem_erase h).1
      · exact Or.inr ((makeRoom_sublist capacity l).subset h)

theorem mem_of_mem_perform {call : Cache.Call} {entry : String × String}
    (h : entry ∈ l.perform capacity call) : call.source? = some entry.2 ∨ entry ∈ l := by
  cases call with
  | fetch id source =>
    rcases mem_of_mem_fetch h with rfl | h
    · exact Or.inl rfl
    · exact Or.inr h
  | invalidate id => exact Or.inr (Entries.mem_of_mem_erase h).1
  | clear => exact absurd h List.not_mem_nil

theorem mem_sources_of_mem_ofCalls (calls : List Cache.Call) {entry : String × String}
    (h : entry ∈ ofCalls capacity calls) : entry.2 ∈ Cache.sources calls := by
  induction calls using List.reverseRecOn with
  | nil => exact absurd h List.not_mem_nil
  | append_singleton calls call ih =>
    rw [ofCalls_concat] at h
    rw [Cache.sources_concat, List.mem_append]
    rcases mem_of_mem_perform h with asked | h
    · exact Or.inr (Option.mem_toList.2 asked)
    · exact Or.inl (ih h)

/-! ### What stays -/

theorem nodup_fetch (h : (Entries.keys l).Nodup) (capacity : Nat) (id source : String) :
    (Entries.keys (l.fetch capacity id source)).Nodup := by
  have erased : (Entries.keys (Entries.erase l id)).Nodup := h.sublist (List.filter_sublist.map _)
  unfold fetch
  cases Program.ofSource? source with
  | error e => exact erased
  | ok p =>
    refine List.nodup_cons.2 ?_
    split_ifs with known
    · refine ⟨fun mem => ?_, erased⟩
      change id ∈ Entries.keys (Entries.erase l id) at mem
      rw [Entries.keys_erase] at mem
      simp at mem
    · have front := (makeRoom_sublist capacity l).map Prod.fst
      exact ⟨fun mem => known (Entries.mem_keys_iff_isSome.1 (front.subset mem)), h.sublist front⟩

theorem nodup_ofCalls (capacity : Nat) (calls : List Cache.Call) :
    (Entries.keys (ofCalls capacity calls)).Nodup := by
  induction calls using List.reverseRecOn with
  | nil => exact .nil
  | append_singleton calls call ih =>
    rw [ofCalls_concat]
    cases call with
    | fetch id source => exact nodup_fetch ih capacity id source
    | invalidate id => exact ih.sublist (List.filter_sublist.map _)
    | clear => exact .nil

/-- A script is held with this source, and of those in front of it all are among some. -/
def HeldBehind (l : Recency) (id source : String) (others : List String) : Prop :=
  ∃ front back, l = front ++ (id, source) :: back ∧ Entries.keys front ⊆ others

theorem HeldBehind.find? {others : List String} (h : l.HeldBehind id source others)
    (nodup : (Entries.keys l).Nodup) : Entries.find? l id = some source := by
  obtain ⟨front, back, rfl, -⟩ := h
  exact Entries.find?_of_mem nodup (by simp)

/-- What has few others in front of it stays when room is made. -/
theorem makeRoom_append (front back : Recency) (entry : String × String)
    (few : capacity = 0 ∨ front.length + 1 < capacity) :
    ∃ back', (front ++ entry :: back).makeRoom capacity = front ++ entry :: back' := by
  unfold makeRoom
  split_ifs with unbounded
  · exact ⟨back, rfl⟩
  · obtain ⟨room, eq⟩ := Nat.exists_eq_add_of_lt (few.resolve_left unbounded)
    refine ⟨back.take room, ?_⟩
    rw [show capacity - 1 = front.length + (room + 1) by omega, List.take_length_add_append,
      List.take_succ_cons]

/-- Calls about other scripts bring only these in front of it, and do not drop it as long as they
are too few to fill the cache. -/
theorem HeldBehind.perform {others : List String} (h : l.HeldBehind id source others)
    (nodup : (Entries.keys l).Nodup) {call : Cache.Call} (spares : call.Spares id)
    (few : capacity = 0 ∨ (others ++ call.fetched?.toList).toFinset.card < capacity) :
    (l.perform capacity call).HeldBehind id source (others ++ call.fetched?.toList) := by
  obtain ⟨front, back, rfl, among⟩ := h
  have erased : ∀ other, other ≠ id →
      Entries.erase (front ++ (id, source) :: back) other =
        Entries.erase front other ++ (id, source) :: Entries.erase back other := by
    intro other apart
    simp [Entries.erase, Ne.symm apart]
  have fewer : ∀ other, Entries.keys (Entries.erase front other) ⊆ others := fun other =>
    List.Subset.trans (List.filter_sublist.map _).subset among
  cases call with
  | clear => exact spares.elim
  | invalidate other =>
    rw [show Cache.Call.fetched? (.invalidate other) = none from rfl, Option.toList_none,
      List.append_nil]
    exact ⟨_, _, erased other spares, fewer other⟩
  | fetch other otherSource =>
    change HeldBehind (Recency.fetch capacity _ other otherSource) _ _ _
    cases parsed : Program.ofSource? otherSource with
    | error e =>
      rw [fetch_of_error parsed]
      exact ⟨_, _, erased other spares, fun key mem => List.mem_append_left _ (fewer other mem)⟩
    | ok p =>
      have brought : (Cache.Call.fetch other otherSource).fetched? = some other := by
        simp [Cache.Call.fetched?, parsed, Except.isOk, Except.toBool]
      rw [fetch_of_ok parsed]
      rw [brought, Option.toList_some] at few ⊢
      have within : ∀ keys, keys ⊆ others → other :: keys ⊆ others ++ [other] := fun keys sub =>
        List.cons_subset.2 ⟨by simp, List.subset_append_of_subset_left _ sub⟩
      split_ifs with known
      · rw [erased other spares]
        exact ⟨(other, otherSource) :: Entries.erase front other, _, rfl, within _ (fewer other)⟩
      · have front_sublist : (Entries.keys front).Sublist
            (Entries.keys (front ++ (id, source) :: back)) := (List.sublist_append_left ..).map _
        have distinct : (other :: Entries.keys front).Nodup :=
          List.nodup_cons.2 ⟨fun mem => known (Entries.mem_keys_iff_isSome.1
            (front_sublist.subset mem)), nodup.sublist front_sublist⟩
        have count : front.length + 1 ≤ (others ++ [other]).toFinset.card :=
          calc front.length + 1 = (other :: Entries.keys front).toFinset.card := by
                rw [List.toFinset_card_of_nodup distinct]
                simp [Entries.keys]
            _ ≤ (others ++ [other]).toFinset.card := Finset.card_le_card fun key mem =>
                List.mem_toFinset.2 (within _ among (List.mem_toFinset.1 mem))
        obtain ⟨back', eq⟩ := makeRoom_append front back (id, source)
          (few.imp_right count.trans_lt)
        rw [eq]
        exact ⟨(other, otherSource) :: front, back', rfl, within _ among⟩

/-- **A script stays held** with the source that it was last read from, as long as it is asked for
no more and fewer others than the cache has room for are read. -/
theorem find?_ofCalls_of_few {before since : List Cache.Call} {p : Program}
    (parsed : Program.ofSource? source = .ok p) (spares : ∀ call ∈ since, call.Spares id)
    (few : capacity = 0 ∨ (since.filterMap Cache.Call.fetched?).toFinset.card < capacity) :
    Entries.find? (ofCalls capacity (before ++ .fetch id source :: since)) id = some source := by
  have behind : (ofCalls capacity (before ++ .fetch id source :: since)).HeldBehind id source
      (since.filterMap Cache.Call.fetched?) := by
    induction since using List.reverseRecOn with
    | nil =>
      rw [ofCalls_concat]
      change HeldBehind (Recency.fetch capacity _ id source) _ _ _
      rw [fetch_of_ok parsed]
      exact ⟨[], _, rfl, List.nil_subset _⟩
    | append_singleton since call ih =>
      rw [filterMap_concat] at few ⊢
      rw [← List.cons_append, ← List.append_assoc, ofCalls_concat]
      refine (ih (fun other mem => spares other (List.mem_append_left _ mem)) ?_).perform
        (nodup_ofCalls ..) (spares call (by simp)) few
      exact few.imp_right (Finset.card_le_card fun key mem => by
        rw [List.mem_toFinset] at mem ⊢
        exact List.mem_append_left _ mem).trans_lt
  exact behind.find? (nodup_ofCalls ..)

end Recency

end SheetScript
