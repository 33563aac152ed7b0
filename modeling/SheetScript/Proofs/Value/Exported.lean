import SheetScript.Proofs.Number.Binary
import SheetScript.Value.Basic

/-!
# Equality of exported data

Data is compared by `Json.beq`, for which a real that is no number differs from itself and the two
zeros are equal. No value becomes such data: `Value.toJson` makes `null` of what is no number and an
integer of a zero. So to compare with an exported value is to ask whether the data is the same.

* `Value.numberToJson_cases`: what numbers become.
* `Value.beq_toJson_iff`: equality with an exported value is identity.
-/

namespace SheetScript.Value

/-- A number leaves as an integer, as `null`, or as a real that equals nothing but itself. -/
theorem numberToJson_cases (x : Float) :
    (∃ i, numberToJson x = .integer i) ∨ numberToJson x = .null ∨
      numberToJson x = .real x ∧ ∀ y, (y == x) = true ↔ y = x := by
  unfold numberToJson
  have zero : Number.integer? 0 = some 0 := by decide +kernel
  have minus_zero : Number.integer? (-0) = some 0 := by decide +kernel
  have unordered : Number.integer? Float.nan = none ∧ Float.nan.isFinite = false := by
    decide
  -- what is no number and no zero is compared as it is
  have alone : x ≠ Float.nan → x ≠ 0 → x ≠ -0 → ∀ y, (y == x) = true ↔ y = x := by
    intro number positive negative y
    rw [Float.beq_iff_ne_nan_and_eq]
    constructor
    · rintro ⟨-, -, rfl | ⟨-, same⟩ | ⟨-, same⟩⟩
      · rfl
      · exact absurd same negative
      · exact absurd same positive
    · rintro rfl
      exact ⟨number, number, .inl rfl⟩
  cases whole : Number.integer? x with
  | some i =>
    by_cases small : i.natAbs < exportedIntegers
    · exact .inl ⟨i, if_pos small⟩
    · refine .inr (.inr ⟨if_neg small, alone ?_ ?_ ?_⟩)
      · rintro rfl
        rw [unordered.1] at whole
        nomatch whole
      · rintro rfl
        obtain rfl : 0 = i := Option.some.inj (zero.symm.trans whole)
        exact small (by decide)
      · rintro rfl
        obtain rfl : 0 = i := Option.some.inj (minus_zero.symm.trans whole)
        exact small (by decide)
  | none =>
    by_cases finite : x.isFinite = true
    · refine .inr (.inr ⟨if_pos finite, alone ?_ ?_ ?_⟩)
      · rintro rfl
        rw [unordered.2] at finite
        nomatch finite
      · rintro rfl
        rw [zero] at whole
        nomatch whole
      · rintro rfl
        rw [minus_zero] at whole
        nomatch whole
    · exact .inr (.inl (if_neg finite))

theorem beq_numberToJson (x : Float) (json : Json) :
    json.beq (numberToJson x) = true ↔ json = numberToJson x := by
  rcases numberToJson_cases x with ⟨i, eq⟩ | eq | ⟨eq, alone⟩
  · rw [eq]
    cases json <;> simp [Json.beq]
  · rw [eq]
    cases json <;> simp [Json.beq]
  · rw [eq]
    cases json <;> simp [Json.beq, alone]

mutual

theorem beq_toJson : ∀ (value : Value) (json : Json),
    json.beq value.toJson = true ↔ json = value.toJson
  | .null, json => by cases json <;> simp [Json.beq, toJson]
  | .bool _, json => by cases json <;> simp [Json.beq, toJson]
  | .number x, json => by simpa only [toJson] using beq_numberToJson x json
  | .string _, json => by cases json <;> simp [Json.beq, toJson]
  | .array items, json => by
    have all := beq_toJsonItems items
    cases json <;> simp [Json.beq, toJson, all]
  | .map entries, json => by
    have all := beq_toJsonEntries entries
    cases json <;> simp [Json.beq, toJson, all]
  | .function _, json => by cases json <;> simp [Json.beq, toJson]
  | .builtin _, json => by cases json <;> simp [Json.beq, toJson]
  | .native _, json => by cases json <;> simp [Json.beq, toJson]
  | .chart _, json => by cases json <;> simp [Json.beq, toJson]
  | .row _, json => by cases json <;> simp [Json.beq, toJson]
  | .object _, json => by cases json <;> simp [Json.beq, toJson]

theorem beq_toJsonItems : ∀ (items : List Value) (jsons : List Json),
    Json.beqItems jsons (toJsonItems items) = true ↔ jsons = toJsonItems items
  | [], jsons => by cases jsons <;> simp [Json.beqItems, toJsonItems]
  | value :: rest, jsons => by
    have first := beq_toJson value
    have others := beq_toJsonItems rest
    cases jsons <;> simp [Json.beqItems, toJsonItems, first, others]

theorem beq_toJsonEntries : ∀ (entries : List (String × Value)) (members : List (String × Json)),
    Json.beqMembers members (toJsonEntries entries) = true ↔ members = toJsonEntries entries
  | [], members => by cases members <;> simp [Json.beqMembers, toJsonEntries]
  | (key, value) :: rest, members => by
    have first := beq_toJson value
    have others := beq_toJsonEntries rest
    cases members <;>
      simp [Json.beqMembers, toJsonEntries, first, others, Prod.ext_iff]

end

/-- **Data equals an exported value when it is the same.** -/
theorem beq_toJson_iff (value : Value) (json : Json) :
    (json == value.toJson) = true ↔ json = value.toJson := beq_toJson value json

end SheetScript.Value
