import Mathlib.Data.String.Basic
import SheetScript.Entries

/-!
# Looking up sorted entries

What `Entries` and `Names` hold after each operation. The look-ups hold of any list of pairs; the
order of the keys (`Entries.Sorted`) is kept by every operation, and makes each key come up once.

* `find?_insert`, `find?_erase`, `find?_filter`: what a key is mapped to after a change.
* `Sorted.insert`, `Sorted.erase`, `sorted_ofList`: the keys stay in order.
* `ofList_induction`: what setting keys keeps, a map of pairs has.
* `Names.mem_insert`, `Names.mem_erase`: what a set of texts holds.
-/

namespace SheetScript

namespace Entries

variable {α : Type} {entries : Entries α}

theorem find?_insert (entries : Entries α) (key : String) (value : α) (k : String) :
    find? (insert entries key value) k = if k = key then some value else find? entries k := by
  induction entries with
  | nil => by_cases h : k = key <;> simp [insert, find?, h, Ne.symm]
  | cons entry rest ih =>
    obtain ⟨j, v⟩ := entry
    rw [insert]
    by_cases h : k = key
    · subst k
      rw [if_pos rfl] at ih ⊢
      split_ifs with hj lt
      · simp [find?]
      · simp [find?]
      · rw [find?, if_neg hj, ih]
    · have apart : ¬(key == k) = true := fun eq => h (beq_iff_eq.1 eq).symm
      rw [if_neg h] at ih ⊢
      split_ifs with hj lt
      · rw [find?, find?, if_neg apart, beq_iff_eq.1 hj, if_neg apart]
      · rw [find?, if_neg apart]
      · rw [find?, find?, ih]

@[simp] theorem find?_insert_self (entries : Entries α) (key : String) (value : α) :
    find? (insert entries key value) key = some value := by
  rw [find?_insert, if_pos rfl]

theorem find?_insert_of_ne (entries : Entries α) {key k : String} (value : α) (h : k ≠ key) :
    find? (insert entries key value) k = find? entries k := by
  rw [find?_insert, if_neg h]

theorem find?_filter (entries : Entries α) (test : String → Bool) (k : String) :
    find? (entries.filter fun entry => test entry.1) k =
      if test k then find? entries k else none := by
  induction entries with
  | nil => simp [find?]
  | cons entry rest ih =>
    obtain ⟨j, v⟩ := entry
    rw [List.filter_cons]
    by_cases h : j = k
    · subst j
      by_cases hk : test k = true
      · simp [find?, hk]
      · simpa [hk] using ih
    · by_cases hj : test j = true
      · simpa [find?, hj, h] using ih
      · simpa [find?, hj, h] using ih

theorem find?_erase (entries : Entries α) (key k : String) :
    find? (erase entries key) k = if k = key then none else find? entries k := by
  rw [erase, find?_filter entries (fun j => j != key)]
  by_cases h : k = key <;> simp [h]

theorem not_mem_keys_cons {entry : String × α} {key : String} :
    key ∉ keys (entry :: entries) ↔ key ≠ entry.1 ∧ key ∉ keys entries := by
  rw [keys, List.map_cons, List.mem_cons, not_or]
  rfl

theorem mem_keys_iff_isSome {key : String} : key ∈ keys entries ↔ (find? entries key).isSome := by
  induction entries with
  | nil => simp [keys, find?]
  | cons entry rest ih =>
    obtain ⟨k, v⟩ := entry
    by_cases h : k = key
    · simp [keys, find?, h]
    · have apart : key ≠ k := fun eq => h eq.symm
      simpa [keys, find?, h, apart] using ih

theorem mem_of_find? {key : String} {value : α}
    (h : find? entries key = some value) : (key, value) ∈ entries := by
  induction entries with
  | nil => simp [find?] at h
  | cons entry rest ih =>
    obtain ⟨k, v⟩ := entry
    by_cases eq : k = key
    · simp_all [find?]
    · simp only [find?, beq_iff_eq, eq, if_false] at h
      exact List.mem_cons_of_mem _ (ih h)

theorem find?_eq_none_iff {key : String} : find? entries key = none ↔ key ∉ keys entries := by
  rw [mem_keys_iff_isSome, Option.not_isSome_iff_eq_none]

/-- What comes with a key is what the key is mapped to, if it comes once. -/
theorem find?_of_mem (nodup : (keys entries).Nodup) {key : String} {value : α}
    (h : (key, value) ∈ entries) : find? entries key = some value := by
  induction entries with
  | nil => exact absurd h List.not_mem_nil
  | cons entry rest ih =>
    obtain ⟨k, v⟩ := entry
    obtain ⟨first, later⟩ := List.nodup_cons.1 nodup
    rw [find?]
    rcases List.mem_cons.1 h with eq | mem
    · obtain ⟨rfl, rfl⟩ := Prod.mk.inj eq
      rw [if_pos (beq_self_eq_true key)]
    · have mem_keys : key ∈ keys rest := List.mem_map_of_mem mem
      have apart : k ≠ key := fun eq => first (eq ▸ mem_keys)
      rw [if_neg (fun eq => apart (beq_iff_eq.1 eq)), ih later mem]

theorem find?_append (entries others : Entries α) (key : String) :
    find? (entries ++ others) key = (find? entries key).or (find? others key) := by
  induction entries with
  | nil => rfl
  | cons entry rest ih =>
    rw [List.cons_append, find?, find?, ih]
    split_ifs <;> rfl

/-- The entries in front do not have the keys of those behind. -/
theorem find?_take (nodup : (keys entries).Nodup) (count : Nat) (key : String) :
    find? (entries.take count) key =
      if key ∈ keys (entries.drop count) then none else find? entries key := by
  have parts : entries.take count ++ entries.drop count = entries := List.take_append_drop ..
  split_ifs with behind
  · rw [← parts, keys, List.map_append] at nodup
    exact find?_eq_none_iff.2 fun front => (List.nodup_append.1 nodup).2.2 key front key behind rfl
  · conv_rhs => rw [← parts]
    rw [find?_append, find?_eq_none_iff.2 behind, Option.or_none]

theorem erase_of_not_mem {key : String} (h : key ∉ keys entries) : erase entries key = entries :=
  List.filter_eq_self.2 fun _ mem => bne_iff_ne.2 fun eq => h (eq ▸ List.mem_map_of_mem mem)

theorem keys_erase (entries : Entries α) (key : String) :
    keys (erase entries key) = (keys entries).filter (· != key) := by
  rw [keys, keys, erase, List.filter_map]
  rfl

/-! ## The order of the keys -/

/-- The keys are in order, each once. -/
def Sorted (entries : Entries α) : Prop := (keys entries).Pairwise (· < ·)

theorem Sorted.nodup (h : Sorted entries) : (keys entries).Nodup := h.imp fun lt => lt.ne

theorem mem_keys_insert {key k : String} {value : α} :
    k ∈ keys (insert entries key value) ↔ k = key ∨ k ∈ keys entries := by
  induction entries with
  | nil => simp [insert, keys]
  | cons entry rest ih =>
    obtain ⟨j, v⟩ := entry
    simp only [keys, List.map_cons, List.mem_cons] at ih ⊢
    by_cases hj : j = key
    · simp [insert, hj]
    · by_cases lt : key < j
      · simp [insert, hj, lt]
      · simp only [insert, beq_iff_eq, hj, if_false, lt, List.map_cons, List.mem_cons, ih]
        tauto

/-- Setting a key adds no other key. -/
theorem filter_keys_insert {test : String → Bool}
    (old : ∀ k ∈ keys entries, ¬test k) (key : String) (value : α) :
    (keys (insert entries key value)).filter test = [key].filter test := by
  induction entries with
  | nil => rfl
  | cons entry rest ih =>
    obtain ⟨k, v⟩ := entry
    obtain ⟨first, later⟩ := List.forall_mem_cons.1 old
    have none_old : (keys ((k, v) :: rest)).filter test = [] := List.filter_eq_nil_iff.2 old
    by_cases same : (k == key) = true
    · -- the key is an old one, which the test refuses on both sides
      obtain rfl := beq_iff_eq.1 same
      rw [insert, if_pos same]
      exact none_old.trans (List.filter_cons_of_neg (l := []) first).symm
    rw [insert, if_neg same]
    split
    · change List.filter test ([key] ++ keys ((k, v) :: rest)) = _
      rw [List.filter_append, none_old, List.append_nil]
    · change List.filter test (k :: keys (insert rest key value)) = _
      rw [List.filter_cons_of_neg first, ih later]

theorem Sorted.insert (h : Sorted entries) (key : String) (value : α) :
    Sorted (insert entries key value) := by
  induction entries with
  | nil => simp [Entries.insert, Sorted, keys]
  | cons entry rest ih =>
    obtain ⟨j, v⟩ := entry
    obtain ⟨first, rest_sorted⟩ := List.pairwise_cons.1 h
    by_cases hj : j = key
    · subst j
      simpa [Entries.insert, Sorted, keys] using h
    · by_cases lt : key < j
      · simp only [Entries.insert, beq_iff_eq, hj, if_false, lt, if_true]
        refine List.pairwise_cons.2 ⟨fun k hk => ?_, h⟩
        rcases List.mem_cons.1 hk with rfl | hk
        · exact lt
        · exact lt.trans (first k hk)
      · simp only [Entries.insert, beq_iff_eq, hj, if_false, lt]
        refine List.pairwise_cons.2 ⟨fun k hk => ?_, ih rest_sorted⟩
        rcases mem_keys_insert.1 hk with rfl | hk
        · exact lt_of_le_of_ne (not_lt.1 lt) hj
        · exact first k hk

theorem Sorted.erase (h : Sorted entries) (key : String) : Sorted (erase entries key) :=
  h.sublist (List.filter_sublist.map _)

theorem mem_of_mem_insert {key : String} {value : α} {entry : String × α}
    (h : entry ∈ insert entries key value) : entry = (key, value) ∨ entry ∈ entries := by
  induction entries with
  | nil => exact Or.inl (by simpa [insert] using h)
  | cons first rest ih =>
    obtain ⟨j, v⟩ := first
    simp only [insert] at h
    split_ifs at h
    · rcases List.mem_cons.1 h with h | h
      · exact Or.inl h
      · exact Or.inr (List.mem_cons_of_mem _ h)
    · rcases List.mem_cons.1 h with h | h
      · exact Or.inl h
      · exact Or.inr h
    · rcases List.mem_cons.1 h with h | h
      · exact Or.inr (h ▸ List.mem_cons_self)
      · exact (ih h).imp_right (List.mem_cons_of_mem _)

theorem mem_of_mem_erase {key : String} {entry : String × α} (h : entry ∈ erase entries key) :
    entry ∈ entries ∧ entry.1 ≠ key := by
  simpa [erase] using h

/-- What the map of no pairs has, and setting the key of each pair keeps, the map of the pairs has. -/
theorem ofList_induction {P : Entries α → Prop} {pairs : List (String × α)} (empty : P [])
    (set : ∀ pair ∈ pairs, ∀ entries, P entries → P (insert entries pair.1 pair.2)) :
    P (ofList pairs) := by
  have fill : ∀ entries : Entries α, P entries →
      P (pairs.foldl (fun entries pair => insert entries pair.1 pair.2) entries) := by
    induction pairs with
    | nil => exact fun _ start => start
    | cons pair rest ih =>
      obtain ⟨first, later⟩ := List.forall_mem_cons.1 set
      exact fun entries start => ih later _ (first entries start)
  exact fill [] empty

theorem sorted_ofList (pairs : List (String × α)) : Sorted (ofList pairs) :=
  ofList_induction .nil fun pair _ _ sorted => sorted.insert pair.1 pair.2

theorem mem_of_mem_ofList {pairs : List (String × α)} {entry : String × α}
    (h : entry ∈ ofList pairs) : entry ∈ pairs := by
  refine ofList_induction (P := fun entries => ∀ entry ∈ entries, entry ∈ pairs)
    (List.forall_mem_nil _) (fun pair mem entries among entry added => ?_) entry h
  rcases mem_of_mem_insert added with rfl | old
  · exact mem
  · exact among entry old

/-- Pairs of other keys do not count. -/
theorem find?_ofList_append {front back : List (String × α)} {key : String}
    (free : ∀ pair ∈ back, pair.1 ≠ key) :
    find? (ofList (front ++ back)) key = find? (ofList front) key := by
  induction back generalizing front with
  | nil => rw [List.append_nil]
  | cons pair rest ih =>
    obtain ⟨other, later⟩ := List.forall_mem_cons.1 free
    have added : ofList (front ++ [pair]) = insert (ofList front) pair.1 pair.2 := by
      rw [ofList, List.foldl_append]
      rfl
    rw [List.append_cons, ih later, added, find?_insert, if_neg other.symm]

/-- The last pair of a key wins. -/
theorem find?_ofList_last {front back : List (String × α)} {key : String} {value : α}
    (last : ∀ pair ∈ back, pair.1 ≠ key) :
    find? (ofList (front ++ (key, value) :: back)) key = some value := by
  have added : ofList (front ++ [(key, value)]) = insert (ofList front) key value := by
    rw [ofList, List.foldl_append]
    rfl
  rw [List.append_cons, find?_ofList_append last, added, find?_insert, if_pos rfl]

end Entries

namespace Names

theorem mem_insert {names : Names} {name n : String} :
    n ∈ insert names name ↔ n = name ∨ n ∈ names := by
  induction names with
  | nil => simp [insert]
  | cons first rest ih =>
    by_cases h : first = name
    · simp [insert, h]
    · by_cases lt : name < first
      · simp [insert, h, lt]
      · simp only [insert, beq_iff_eq, h, if_false, lt, List.mem_cons, ih]
        tauto

theorem mem_erase {names : Names} {name n : String} :
    n ∈ erase names name ↔ n ∈ names ∧ n ≠ name := by
  simp [erase]

end Names

end SheetScript
