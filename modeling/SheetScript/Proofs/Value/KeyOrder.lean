import SheetScript.Json.Reader
import SheetScript.Proofs.Value.Equality
import SheetScript.Proofs.Value.Hereditary

/-!
# The order of keys

The maps of a run and the objects of the host's data are lists of pairs, but not any lists: the keys
are in order, and so each comes once. What makes a map keeps to that.

* `Json.KeysSorted` and `Value.KeysSorted` say so of the objects and the maps in a value, at any
  depth. Then each key comes once (`Value.KeysSorted.keysOnce`).
* `Value.kept_keysSorted`: the operations keep to it. For a map that is written out, whatever keys
  it repeats, that is `Kept.ofList`; for an assignment to a position it is `Kept.put`.
* `Value.keysSorted_ofJson` and `Value.keysSorted_toJson`: the way from the host and back changes no
  keys.
* `Json.keysSorted_read?`: data that is read from a text keeps to it.
-/

namespace SheetScript

/-! ## Data of the host -/

namespace Json

mutual

/-- In each object in a value, the names are in order, each once. -/
def KeysSorted : Json → Prop
  | array items => KeysSortedItems items
  | object members => Entries.Sorted members ∧ KeysSortedMembers members
  | _ => True

/-- In each object in the items of an array, the names are in order, each once. -/
def KeysSortedItems : List Json → Prop
  | [] => True
  | json :: rest => json.KeysSorted ∧ KeysSortedItems rest

/-- In each object in the members of an object, the names are in order, each once. -/
def KeysSortedMembers : List (String × Json) → Prop
  | [] => True
  | (_, json) :: rest => json.KeysSorted ∧ KeysSortedMembers rest

end

theorem keysSorted_array {items : List Json} :
    KeysSorted (array items) ↔ ∀ json ∈ items, json.KeysSorted := by
  rw [KeysSorted]
  induction items with
  | nil => simp [KeysSortedItems]
  | cons json rest ih => rw [KeysSortedItems, ih, List.forall_mem_cons]

theorem keysSorted_object {members : List (String × Json)} :
    KeysSorted (object members) ↔
      Entries.Sorted members ∧ ∀ member ∈ members, member.2.KeysSorted := by
  have all : ∀ members, KeysSortedMembers members ↔ ∀ member ∈ members, member.2.KeysSorted := by
    intro members
    induction members with
    | nil => simp [KeysSortedMembers]
    | cons member rest ih => rw [KeysSortedMembers, ih, List.forall_mem_cons]
  rw [KeysSorted, all]

end Json

/-! ## Values -/

namespace Value

variable {v : Value} {items : List Value} {entries : List (String × Value)}

mutual

/-- In each map in a value, the keys are in order, each once. -/
def KeysSorted : Value → Prop
  | array items => KeysSortedItems items
  | map entries => Entries.Sorted entries ∧ KeysSortedEntries entries
  | _ => True

/-- In each map in the items of an array, the keys are in order, each once. -/
def KeysSortedItems : List Value → Prop
  | [] => True
  | v :: rest => v.KeysSorted ∧ KeysSortedItems rest

/-- In each map in the entries of a map, the keys are in order, each once. -/
def KeysSortedEntries : List (String × Value) → Prop
  | [] => True
  | (_, v) :: rest => v.KeysSorted ∧ KeysSortedEntries rest

end

theorem keysSorted_array : KeysSorted (array items) ↔ ∀ v ∈ items, v.KeysSorted := by
  rw [KeysSorted]
  induction items with
  | nil => simp [KeysSortedItems]
  | cons v rest ih => rw [KeysSortedItems, ih, List.forall_mem_cons]

theorem keysSorted_map : KeysSorted (map entries) ↔
    Entries.Sorted entries ∧ ∀ entry ∈ entries, entry.2.KeysSorted := by
  have all : ∀ entries, KeysSortedEntries entries ↔ ∀ entry ∈ entries, entry.2.KeysSorted := by
    intro entries
    induction entries with
    | nil => simp [KeysSortedEntries]
    | cons entry rest ih => rw [KeysSortedEntries, ih, List.forall_mem_cons]
  rw [KeysSorted, all]

/-- **Keys in order come once.** -/
theorem KeysSorted.keysOnce (h : v.KeysSorted) : v.KeysOnce := by
  induction v using parts_induction with
  | step v ih =>
    cases v
    case array items =>
      rw [keysSorted_array] at h
      exact keysOnce_array.2 fun v mem => ih v mem (h v mem)
    case map entries =>
      rw [keysSorted_map] at h
      exact keysOnce_map.2 ⟨h.1.nodup, fun entry mem =>
        ih entry.2 (List.mem_map_of_mem mem) (h.2 entry mem)⟩
    all_goals trivial

/-- **The operations keep keys in order.** -/
theorem kept_keysSorted : Kept KeysSorted where
  null := trivial
  bool _ := trivial
  number _ := trivial
  string _ := trivial
  array := keysSorted_array
  empty := keysSorted_map.2 ⟨List.Pairwise.nil, List.forall_mem_nil _⟩
  values h := (keysSorted_map.1 h).2
  filled h hv key := by
    obtain ⟨sorted, each⟩ := keysSorted_map.1 h
    exact keysSorted_map.2 ⟨sorted.insert key _, Hereditary.insert each key hv⟩

/-! ## To the host and back -/

theorem keys_ofJsonMembers (members : List (String × Json)) :
    Entries.keys (ofJsonMembers members) = Entries.keys members := by
  induction members with
  | nil => rfl
  | cons member rest ih => exact congrArg (member.1 :: ·) ih

theorem keys_toJsonEntries (entries : List (String × Value)) :
    Entries.keys (toJsonEntries entries) = Entries.keys entries := by
  induction entries with
  | nil => rfl
  | cons entry rest ih => exact congrArg (entry.1 :: ·) ih

mutual

/-- The keys of a value from the host are in order exactly if its data is. -/
theorem keysSorted_ofJson : ∀ json : Json, (ofJson json).KeysSorted ↔ json.KeysSorted
  | .null | .bool _ | .integer _ | .real _ | .string _ => Iff.rfl
  | .array items => keysSortedItems_ofJson items
  | .object members => by
    have sorted : Entries.Sorted (ofJsonMembers members) ↔ Entries.Sorted members := by
      rw [Entries.Sorted, Entries.Sorted, keys_ofJsonMembers]
    exact and_congr sorted (keysSortedMembers_ofJson members)

theorem keysSortedItems_ofJson : ∀ items : List Json,
    KeysSortedItems (ofJsonItems items) ↔ Json.KeysSortedItems items
  | [] => Iff.rfl
  | json :: rest => and_congr (keysSorted_ofJson json) (keysSortedItems_ofJson rest)

theorem keysSortedMembers_ofJson : ∀ members : List (String × Json),
    KeysSortedEntries (ofJsonMembers members) ↔ Json.KeysSortedMembers members
  | [] => Iff.rfl
  | (_, json) :: rest => and_congr (keysSorted_ofJson json) (keysSortedMembers_ofJson rest)

end

mutual

/-- What is stored of a value has its keys in order exactly if the value has. -/
theorem keysSorted_toJson : ∀ v : Value, v.toJson.KeysSorted ↔ v.KeysSorted
  | .number x => by
    refine iff_of_true ?_ trivial
    rw [toJson, numberToJson]
    split
    · split_ifs <;> trivial
    · split_ifs <;> trivial
  | .array items => keysSortedItems_toJson items
  | .map entries => by
    have sorted : Entries.Sorted (toJsonEntries entries) ↔ Entries.Sorted entries := by
      rw [Entries.Sorted, Entries.Sorted, keys_toJsonEntries]
    exact and_congr sorted (keysSortedEntries_toJson entries)
  | .null | .bool _ | .string _ | .function _ | .builtin _ | .native _ | .chart _ | .row _
  | .object _ => Iff.rfl

theorem keysSortedItems_toJson : ∀ items : List Value,
    Json.KeysSortedItems (toJsonItems items) ↔ KeysSortedItems items
  | [] => Iff.rfl
  | v :: rest => and_congr (keysSorted_toJson v) (keysSortedItems_toJson rest)

theorem keysSortedEntries_toJson : ∀ entries : List (String × Value),
    Json.KeysSortedMembers (toJsonEntries entries) ↔ KeysSortedEntries entries
  | [] => Iff.rfl
  | (_, v) :: rest => and_congr (keysSorted_toJson v) (keysSortedEntries_toJson rest)

end

end Value

/-! ## Reading -/

namespace Json

theorem keysSorted_ofMembers {members : List (String × Json)}
    (h : ∀ member ∈ members, member.2.KeysSorted) : (ofMembers members).KeysSorted :=
  keysSorted_object.2 ⟨Entries.sorted_ofList members,
    fun member mem => h member (Entries.mem_of_mem_ofList mem)⟩

/-- What a reader reads, whatever is ahead, has a property. -/
def Reader.Reads {α : Type} (reader : Reader α) (P : α → Prop) : Prop :=
  ∀ cs a rest, reader cs = some (a, rest) → P a

theorem keysSorted_numeral {n : Numeral} {json : Json} (h : n.toJson? = some json) :
    json.KeysSorted := by
  have real : n.real?.map .real = some json → json.KeysSorted := fun h => by
    obtain ⟨x, -, rfl⟩ := Option.map_eq_some_iff.1 h
    trivial
  unfold Numeral.toJson? at h
  dsimp only at h
  split_ifs at h
  · exact Option.some.inj h ▸ trivial
  · exact Option.some.inj h ▸ trivial
  · exact real h
  · exact real h

theorem reads_readNumber : Reader.Reads readNumber KeysSorted := by
  intro cs json rest h
  obtain ⟨⟨whole, rest₁⟩, -, h⟩ := Option.bind_eq_some_iff.1 h
  dsimp only at h
  split_ifs at h
  obtain ⟨⟨fraction, rest₂⟩, -, h⟩ := Option.bind_eq_some_iff.1 h
  obtain ⟨⟨power?, rest₃⟩, -, h⟩ := Option.bind_eq_some_iff.1 h
  obtain ⟨number, found, h⟩ := Option.bind_eq_some_iff.1 h
  cases h
  exact keysSorted_numeral found

theorem reads_readScalar : Reader.Reads readScalar KeysSorted := by
  intro cs json rest h
  unfold readScalar at h
  split at h
  case h_5 => exact reads_readNumber _ _ _ h
  all_goals
    obtain ⟨_, _, eq⟩ := Option.map_eq_some_iff.1 h
    cases eq
    trivial

section

variable {item : Reader Json} (reads : Reader.Reads item KeysSorted)
include reads

theorem keysSorted_readItems {room : Nat} {before items : List Json} {cs rest : List Char}
    (sorted : ∀ json ∈ before, json.KeysSorted)
    (h : readItems item room before cs = some (items, rest)) : ∀ json ∈ items, json.KeysSorted := by
  fun_induction readItems item room before cs with
  | case1 room before cs more eq =>
    cases h
    exact fun json mem => sorted json (List.mem_reverse.1 mem)
  | case2 room before cs more eq json more' found ih =>
    exact ih (List.forall_mem_cons.2 ⟨reads _ _ _ found, sorted⟩) h
  | case3 => cases h
  | case4 => cases h

theorem reads_readArray : Reader.Reads (readArray item) KeysSorted := by
  intro cs json rest h
  unfold readArray at h
  split at h
  · cases h
    trivial
  · obtain ⟨⟨first, rest₁⟩, found, h⟩ := Option.bind_eq_some_iff.1 h
    obtain ⟨⟨items, rest₂⟩, others, h⟩ := Option.bind_eq_some_iff.1 h
    cases h
    refine keysSorted_array.2 (keysSorted_readItems reads ?_ others)
    exact List.forall_mem_singleton.2 (reads _ _ _ found)

theorem reads_readMember : Reader.Reads (readMember item) fun member => member.2.KeysSorted := by
  intro cs member rest h
  obtain ⟨rest₁, -, h⟩ := Option.bind_eq_some_iff.1 h
  obtain ⟨⟨name, rest₂⟩, -, h⟩ := Option.bind_eq_some_iff.1 h
  obtain ⟨rest₃, -, h⟩ := Option.bind_eq_some_iff.1 h
  obtain ⟨⟨json, rest₄⟩, found, h⟩ := Option.bind_eq_some_iff.1 h
  cases h
  exact reads _ _ _ found

theorem keysSorted_readMembers {room : Nat} {before members : List (String × Json)}
    {cs rest : List Char} (sorted : ∀ member ∈ before, member.2.KeysSorted)
    (h : readMembers item room before cs = some (members, rest)) :
    ∀ member ∈ members, member.2.KeysSorted := by
  fun_induction readMembers item room before cs with
  | case1 room before cs more eq =>
    cases h
    exact fun member mem => sorted member (List.mem_reverse.1 mem)
  | case2 room before cs more eq member more' found ih =>
    exact ih (List.forall_mem_cons.2 ⟨reads_readMember reads _ _ _ found, sorted⟩) h
  | case3 => cases h
  | case4 => cases h

theorem reads_readObject : Reader.Reads (readObject item) KeysSorted := by
  intro cs json rest h
  unfold readObject at h
  split at h
  · cases h
    exact keysSorted_ofMembers (List.forall_mem_nil _)
  · obtain ⟨⟨first, rest₁⟩, found, h⟩ := Option.bind_eq_some_iff.1 h
    obtain ⟨⟨members, rest₂⟩, others, h⟩ := Option.bind_eq_some_iff.1 h
    cases h
    refine keysSorted_ofMembers (keysSorted_readMembers reads ?_ others)
    exact List.forall_mem_singleton.2 (reads_readMember reads _ _ _ found)

end

theorem reads_readValue (depth : Nat) : Reader.Reads (readValue depth) KeysSorted := by
  induction depth with
  | zero =>
    intro cs json rest h
    unfold readValue at h
    split at h
    · cases h
    · cases h
    · contradiction
    · contradiction
    · exact reads_readScalar _ _ _ h
  | succ depth ih =>
    intro cs json rest h
    unfold readValue at h
    split at h
    · contradiction
    · contradiction
    -- what is in an array or an object is one level deeper
    next inner more eq _ =>
      obtain rfl := Nat.succ.inj eq
      exact reads_readArray ih _ _ _ h
    next inner more eq _ =>
      obtain rfl := Nat.succ.inj eq
      exact reads_readObject ih _ _ _ h
    · exact reads_readScalar _ _ _ h

/-- **Data that is read from a text has its keys in order.** -/
theorem keysSorted_read? {text : String} {json : Json} (h : read? text = some json) :
    json.KeysSorted := by
  unfold read? at h
  split at h
  next json' rest found =>
    split_ifs at h
    obtain rfl := Option.some.inj h
    exact reads_readValue _ _ _ _ found
  next => cases h

end Json

end SheetScript
