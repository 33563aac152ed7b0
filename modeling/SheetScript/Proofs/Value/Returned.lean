import SheetScript.Proofs.Number.Integer
import SheetScript.Proofs.Value.Equality

/-!
# Values that come back from the host

A value that is stored with the host is data there, and a value again when it is read. What is no
data comes back as its text, and a number that is not finite as `null`; all else comes back equal.

* `Value.returned` is a value as it comes back. A number is stored in the same form when it has come
  back (`numberToJson_returned`), for an integer by `Number.integer?_ofInt`.
* `Value.IsData` says of a value that it is data with finite numbers.
* `stored_stays`: to store, to read and to store again is to store once, and the values that come
  back equal are those that are data.
-/

namespace SheetScript.Value

variable {v : Value} {items : List Value} {entries : List (String × Value)} {x : Float}

/-! ## Numbers -/

theorem exportedIntegers_le : exportedIntegers ≤ 2 ^ 53 := by decide

/-- A number that has come back is stored as before. -/
theorem numberToJson_returned (x : Float) :
    (ofJson (numberToJson x)).toJson = numberToJson x := by
  unfold numberToJson
  cases whole : Number.integer? x with
  | some i =>
    by_cases small : i.natAbs < exportedIntegers
    · have back : Number.integer? (Float.ofInt i) = some i :=
        Number.integer?_ofInt (small.trans_le exportedIntegers_le)
      simp only [small, if_true, ofJson, toJson, numberToJson, back]
    · simp only [small, if_false, ofJson, toJson, numberToJson, whole]
  | none =>
    by_cases finite : x.isFinite = true
    · simp only [finite, if_true, ofJson, toJson, numberToJson, whole]
    · simp only [finite, Bool.false_eq_true, if_false, ofJson, toJson]

/-- A number comes back equal when it is finite. -/
theorem looseEq_returned_number :
    looseEq (ofJson (numberToJson x)) (number x) = true ↔ x.isFinite = true := by
  have self : x.isFinite = true → (x == x) = true := by
    intro finite
    refine Float.beq_self_iff.2 ?_
    rintro rfl
    have infinite : Float.nan.isFinite = false := by decide
    rw [infinite] at finite
    cases finite
  unfold numberToJson
  cases whole : Number.integer? x with
  | some i =>
    have finite := Number.isFinite_of_integer? whole
    dsimp only
    split_ifs with small
    · have back := Number.integer?_ofInt (small.trans_le exportedIntegers_le)
      simp only [ofJson, looseEq, Number.beq_of_integer? back whole, finite]
    · simp only [ofJson, looseEq, self finite, finite]
  | none =>
    dsimp only
    split_ifs with finite
    · simp only [ofJson, looseEq, self finite, finite]
    · simp [ofJson, looseEq, finite]

/-! ## Arrays and maps -/

/-- A value as it comes back from the host. -/
def returned (v : Value) : Value := ofJson v.toJson

theorem returned_array : returned (array items) = array (items.map returned) := by
  have all : ∀ items, ofJsonItems (toJsonItems items) = items.map returned := by
    intro items
    induction items with
    | nil => rfl
    | cons v rest ih => rw [toJsonItems, ofJsonItems, ih, List.map_cons, returned]
  rw [returned, toJson, ofJson, all]

theorem returned_map :
    returned (map entries) = map (entries.map fun e => (e.1, returned e.2)) := by
  have all : ∀ entries, ofJsonMembers (toJsonEntries entries) =
      entries.map fun e => (e.1, returned e.2) := by
    intro entries
    induction entries with
    | nil => rfl
    | cons entry rest ih => rw [toJsonEntries, ofJsonMembers, ih, List.map_cons, returned]
  rw [returned, toJson, ofJson, all]

section Parts

variable {f : Value → Value}

theorem toJsonItems_map (h : ∀ v ∈ items, (f v).toJson = v.toJson) :
    toJsonItems (items.map f) = toJsonItems items := by
  induction items with
  | nil => rfl
  | cons v rest ih =>
    obtain ⟨first, later⟩ := List.forall_mem_cons.1 h
    rw [List.map_cons, toJsonItems, toJsonItems, first, ih later]

theorem toJsonEntries_map (h : ∀ e ∈ entries, (f e.2).toJson = e.2.toJson) :
    toJsonEntries (entries.map fun e => (e.1, f e.2)) = toJsonEntries entries := by
  induction entries with
  | nil => rfl
  | cons entry rest ih =>
    obtain ⟨first, later⟩ := List.forall_mem_cons.1 h
    rw [List.map_cons, toJsonEntries, toJsonEntries, first, ih later]

theorem looseEqItems_map :
    looseEqItems (items.map f) items = true ↔ ∀ v ∈ items, looseEq (f v) v = true := by
  induction items with
  | nil => simp [looseEqItems]
  | cons v rest ih => simp [looseEqItems, ih]

theorem looseEqEntries_map (once : (Entries.keys entries).Nodup) :
    looseEqEntries (entries.map fun e => (e.1, f e.2)) entries = true ↔
      ∀ e ∈ entries, looseEq (f e.2) e.2 = true := by
  rw [looseEqEntries_iff, List.forall_mem_map]
  refine forall₂_congr fun e mem => ?_
  rw [Entries.find?_of_mem once mem]
  simp

end Parts

/-! ## Values -/

/-- What is stored of a value stays as it is. -/
theorem toJson_returned (v : Value) : v.returned.toJson = v.toJson := by
  induction v using parts_induction with
  | step v ih =>
    cases v
    case number x => exact numberToJson_returned x
    case array items =>
      have each : ∀ v ∈ items, v.returned.toJson = v.toJson := ih
      rw [returned_array, toJson, toJson, toJsonItems_map each]
    case map entries =>
      rw [returned_map, toJson, toJson, toJsonEntries_map (forall_mem_values.1 ih)]
    all_goals rfl

/-- Data of which all numbers are finite: no functions, charts, rows or objects. -/
inductive IsData : Value → Prop
  | null : IsData null
  | bool (b : Bool) : IsData (bool b)
  | string (s : String) : IsData (string s)
  | number {x : Float} (finite : x.isFinite = true) : IsData (number x)
  | array {items : List Value} (h : ∀ v ∈ items, IsData v) : IsData (array items)
  | map {entries : List (String × Value)} (h : ∀ e ∈ entries, IsData e.2) : IsData (map entries)

theorem isData_number : IsData (number x) ↔ x.isFinite = true :=
  ⟨fun | .number finite => finite, .number⟩

theorem isData_array : IsData (array items) ↔ ∀ v ∈ items, v.IsData :=
  ⟨fun | .array h => h, .array⟩

theorem isData_map : IsData (map entries) ↔ ∀ e ∈ entries, e.2.IsData :=
  ⟨fun | .map h => h, .map⟩

/-- The values that come back equal are data. -/
theorem looseEq_returned_iff (once : v.KeysOnce) : looseEq v.returned v = true ↔ v.IsData := by
  induction v using parts_induction with
  | step v ih =>
    cases v
    case number x => exact looseEq_returned_number.trans isData_number.symm
    case array items =>
      rw [keysOnce_array] at once
      rw [returned_array, looseEq, looseEqItems_map, isData_array]
      exact forall₂_congr fun v mem => ih v mem (once v mem)
    case map entries =>
      rw [keysOnce_map] at once
      rw [returned_map, looseEq, List.length_map, beq_self_eq_true, Bool.true_and,
        looseEqEntries_map once.1, isData_map]
      exact forall₂_congr fun e mem => ih e.2 (List.mem_map_of_mem mem) (once.2 e mem)
    case null => exact ⟨fun _ => .null, fun _ => rfl⟩
    case bool b => exact ⟨fun _ => .bool b, fun _ => by simp [returned, toJson, ofJson, looseEq]⟩
    case string s =>
      exact ⟨fun _ => .string s, fun _ => by simp [returned, toJson, ofJson, looseEq]⟩
    -- the other kinds come back as texts
    all_goals
      refine ⟨fun eq => by simp [returned, toJson, ofJson, looseEq] at eq, fun data => ?_⟩
      cases data

/-- **Values survive the way to the host and back**: what is stored of a value is what is stored of
it when it has come back, and it comes back equal exactly when it is data with finite numbers. -/
theorem stored_stays (v : Value) : (ofJson v.toJson).toJson = v.toJson ∧
    (v.KeysOnce → (looseEq (ofJson v.toJson) v = true ↔ v.IsData)) :=
  ⟨toJson_returned v, looseEq_returned_iff⟩

/-- An integer that is stored as one, a fraction, one too large, and data around them. -/
def reading : Value :=
  map [("level", number (-3)), ("share", number 0.5), ("count", number 1e300),
    ("flags", array [bool true, null, map [("unit", string "mm")]])]

theorem reading_stored_stays :
    reading.KeysOnce ∧ reading.IsData ∧ looseEq (ofJson reading.toJson) reading = true := by
  have once : reading.KeysOnce := by
    simp [reading, KeysOnce, KeysOnceEntries, KeysOnceItems, Entries.keys]
  have data : reading.IsData := by
    have finite : (-3 : Float).isFinite = true ∧ (0.5 : Float).isFinite = true ∧
        (1e300 : Float).isFinite = true := by decide +kernel
    refine .map ?_
    simp only [List.forall_mem_cons, List.not_mem_nil, false_implies, implies_true, and_true]
    refine ⟨.number finite.1, .number finite.2.1, .number finite.2.2, .array ?_⟩
    simp only [List.forall_mem_cons, List.not_mem_nil, false_implies, implies_true, and_true]
    refine ⟨.bool true, .null, .map ?_⟩
    simp only [List.forall_mem_cons, List.not_mem_nil, false_implies, implies_true, and_true]
    exact .string "mm"
  exact ⟨once, data, ((stored_stays reading).2 once).2 data⟩

end SheetScript.Value
