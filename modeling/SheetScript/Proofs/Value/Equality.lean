import Mathlib.Data.List.Perm.Subperm
import SheetScript.Proofs.Entries
import SheetScript.Proofs.Number.Binary
import SheetScript.Value.Basic

/-!
# The equality of the language

`Value.looseEq` coerces: a number equals a text that reads as it, a boolean equals a number. It is
symmetric all the same, and a value equals itself exactly when all numbers in it do.

* `Value.numbers` lists the numbers in a value, at any depth, and `Value.AllNumbers` says something
  of all of them.
* `Value.KeysOnce` says that in every map each key comes once. So it does where the keys are in order,
  which is how the operations keep them.
* Maps are compared by looking the keys of one up in the other. Two maps of one size in which that
  succeeds have the same keys (`keys_perm`), so that it succeeds the other way round.
* `looseEq_comm_and_self`: symmetry, and when a value equals itself.
-/

namespace SheetScript.Value

variable {v a b : Value} {items as bs : List Value} {entries es fs : List (String × Value)}
  {P : Float → Prop}

/-! ## Parts of values -/

/-- The values directly in a value. -/
def parts : Value → List Value
  | array items => items
  | map entries => Entries.values entries
  | _ => []

theorem forall_mem_values {Q : Value → Prop} :
    (∀ v ∈ Entries.values entries, Q v) ↔ ∀ entry ∈ entries, Q entry.2 :=
  List.forall_mem_map

mutual

/-- What a value has if its parts have it, every value has. -/
theorem parts_induction {Q : Value → Prop} (step : ∀ v, (∀ w ∈ v.parts, Q w) → Q v) : ∀ v, Q v
  | array items => step _ (items_induction step items)
  | map entries => step _ (forall_mem_values.2 (entries_induction step entries))
  | null | bool _ | number _ | string _ | function _ | builtin _ | native _ | chart _ | row _
  | object _ => step _ fun _ mem => absurd mem List.not_mem_nil

theorem items_induction {Q : Value → Prop} (step : ∀ v, (∀ w ∈ v.parts, Q w) → Q v) :
    ∀ items : List Value, ∀ v ∈ items, Q v
  | [] => fun _ mem => absurd mem List.not_mem_nil
  | v :: rest => List.forall_mem_cons.2 ⟨parts_induction step v, items_induction step rest⟩

theorem entries_induction {Q : Value → Prop} (step : ∀ v, (∀ w ∈ v.parts, Q w) → Q v) :
    ∀ entries : List (String × Value), ∀ entry ∈ entries, Q entry.2
  | [] => fun _ mem => absurd mem List.not_mem_nil
  | (_, v) :: rest => List.forall_mem_cons.2 ⟨parts_induction step v, entries_induction step rest⟩

end

mutual

/-- The numbers in a value. -/
def numbers : Value → List Float
  | number x => [x]
  | array items => numbersOfItems items
  | map entries => numbersOfEntries entries
  | _ => []

/-- The numbers in the items of an array. -/
def numbersOfItems : List Value → List Float
  | [] => []
  | v :: rest => v.numbers ++ numbersOfItems rest

/-- The numbers in the entries of a map. -/
def numbersOfEntries : List (String × Value) → List Float
  | [] => []
  | (_, v) :: rest => v.numbers ++ numbersOfEntries rest

end

/-- All numbers in a value are of a kind. -/
def AllNumbers (P : Float → Prop) (v : Value) : Prop := ∀ x ∈ v.numbers, P x

@[simp] theorem allNumbers_number {x : Float} : AllNumbers P (number x) ↔ P x := by
  simp [AllNumbers, numbers]

@[simp] theorem allNumbers_array : AllNumbers P (array items) ↔ ∀ v ∈ items, v.AllNumbers P := by
  simp only [AllNumbers, numbers]
  induction items with
  | nil => simp [numbersOfItems]
  | cons v rest ih => simp [numbersOfItems, or_imp, forall_and, ih]

@[simp] theorem allNumbers_map :
    AllNumbers P (map entries) ↔ ∀ entry ∈ entries, entry.2.AllNumbers P := by
  simp only [AllNumbers, numbers]
  induction entries with
  | nil => simp [numbersOfEntries]
  | cons entry rest ih =>
    obtain ⟨key, v⟩ := entry
    simp [numbersOfEntries, or_imp, forall_and, ih]

mutual

/-- In each map in a value, each key comes once. -/
def KeysOnce : Value → Prop
  | array items => KeysOnceItems items
  | map entries => (Entries.keys entries).Nodup ∧ KeysOnceEntries entries
  | _ => True

/-- In each map in the items of an array, each key comes once. -/
def KeysOnceItems : List Value → Prop
  | [] => True
  | v :: rest => v.KeysOnce ∧ KeysOnceItems rest

/-- In each map in the entries of a map, each key comes once. -/
def KeysOnceEntries : List (String × Value) → Prop
  | [] => True
  | (_, v) :: rest => v.KeysOnce ∧ KeysOnceEntries rest

end

theorem keysOnce_array : KeysOnce (array items) ↔ ∀ v ∈ items, v.KeysOnce := by
  rw [KeysOnce]
  induction items with
  | nil => simp [KeysOnceItems]
  | cons v rest ih => simp [KeysOnceItems, ih]

theorem keysOnce_map : KeysOnce (map entries) ↔
    (Entries.keys entries).Nodup ∧ ∀ entry ∈ entries, entry.2.KeysOnce := by
  have all : ∀ entries, KeysOnceEntries entries ↔ ∀ entry ∈ entries, entry.2.KeysOnce := by
    intro entries
    induction entries with
    | nil => simp [KeysOnceEntries]
    | cons entry rest ih => rw [KeysOnceEntries, ih, List.forall_mem_cons]
  rw [KeysOnce, all]

/-! ## Arrays and maps -/

theorem numericEq_comm (a b : Value) : numericEq a b = numericEq b a := by
  unfold numericEq
  cases a.toNumber? with
  | none => cases b.toNumber? <;> rfl
  | some x =>
    cases b.toNumber? with
    | none => rfl
    | some y => exact BEq.comm

/-- Arrays are compared item by item. -/
theorem looseEqItems_comm (each : ∀ a ∈ as, ∀ b ∈ bs, looseEq a b = looseEq b a) :
    looseEqItems as bs = looseEqItems bs as := by
  induction as generalizing bs with
  | nil => cases bs <;> rfl
  | cons a as ih =>
    cases bs with
    | nil => rfl
    | cons b bs =>
      obtain ⟨first, later⟩ := List.forall_mem_cons.1 each
      rw [looseEqItems, looseEqItems, first b List.mem_cons_self,
        ih fun a' mem b' mem' => later a' mem b' (List.mem_cons_of_mem _ mem')]

theorem looseEqItems_self : looseEqItems items items = true ↔ ∀ v ∈ items, looseEq v v = true := by
  induction items with
  | nil => simp [looseEqItems]
  | cons v rest ih => simp [looseEqItems, ih]

theorem looseEqEntries_iff : looseEqEntries es fs = true ↔
    ∀ entry ∈ es, ∃ w, Entries.find? fs entry.1 = some w ∧ looseEq entry.2 w = true := by
  induction es with
  | nil => simp [looseEqEntries]
  | cons entry rest ih =>
    obtain ⟨key, v⟩ := entry
    rw [looseEqEntries, Bool.and_eq_true, ih, List.forall_mem_cons]
    refine and_congr_left fun _ => ?_
    cases Entries.find? fs key <;> simp

/-- Two maps of one size have the same keys if the second has all keys of the first. -/
theorem keys_perm (once : (Entries.keys es).Nodup) (size : es.length = fs.length)
    (h : looseEqEntries es fs = true) : (Entries.keys es).Perm (Entries.keys fs) := by
  have sub : Entries.keys es ⊆ Entries.keys fs := by
    intro key mem
    obtain ⟨entry, inside, rfl⟩ := List.mem_map.1 mem
    obtain ⟨w, found, -⟩ := looseEqEntries_iff.1 h entry inside
    exact Entries.mem_keys_iff_isSome.2 (by rw [found]; rfl)
  refine (List.subperm_of_subset once sub).perm_of_length_le ?_
  rw [Entries.keys, Entries.keys, List.length_map, List.length_map, size]

theorem looseEqEntries_symm (once : (Entries.keys es).Nodup) (once' : (Entries.keys fs).Nodup)
    (size : es.length = fs.length)
    (each : ∀ e ∈ es, ∀ f ∈ fs, looseEq e.2 f.2 = looseEq f.2 e.2)
    (h : looseEqEntries es fs = true) : looseEqEntries fs es = true := by
  have same := keys_perm once size h
  refine looseEqEntries_iff.2 fun ⟨key, w⟩ mem => ?_
  obtain ⟨⟨key, v⟩, mem', rfl⟩ := List.mem_map.1 (same.mem_iff.2 (List.mem_map_of_mem mem))
  obtain ⟨w', found, eq⟩ := looseEqEntries_iff.1 h _ mem'
  obtain rfl : w = w' := Option.some.inj ((Entries.find?_of_mem once' mem).symm.trans found)
  exact ⟨v, Entries.find?_of_mem once mem', (each _ mem' _ mem).symm.trans eq⟩

/-- Maps are compared by their keys. -/
theorem looseEqEntries_comm (once : (Entries.keys es).Nodup) (once' : (Entries.keys fs).Nodup)
    (each : ∀ e ∈ es, ∀ f ∈ fs, looseEq e.2 f.2 = looseEq f.2 e.2) :
    (es.length == fs.length && looseEqEntries es fs) =
      (fs.length == es.length && looseEqEntries fs es) := by
  rw [Bool.eq_iff_iff, Bool.and_eq_true, Bool.and_eq_true, beq_iff_eq, beq_iff_eq]
  constructor
  · rintro ⟨size, eq⟩
    exact ⟨size.symm, looseEqEntries_symm once once' size each eq⟩
  · rintro ⟨size, eq⟩
    exact ⟨size.symm, looseEqEntries_symm once' once size
      (fun f mem e mem' => (each e mem' f mem).symm) eq⟩

theorem looseEqEntries_self (once : (Entries.keys entries).Nodup) :
    looseEqEntries entries entries = true ↔ ∀ entry ∈ entries, looseEq entry.2 entry.2 = true := by
  rw [looseEqEntries_iff]
  refine forall₂_congr fun entry mem => ?_
  rw [Entries.find?_of_mem once mem]
  simp

/-! ## All values -/

theorem looseEq_comm (ha : a.KeysOnce) (hb : b.KeysOnce) : looseEq a b = looseEq b a := by
  induction a using parts_induction generalizing b with
  | step a ih =>
    cases a <;> cases b
    case array.array as bs =>
      rw [keysOnce_array] at ha hb
      exact looseEqItems_comm fun a mem b mem' => ih a mem (ha a mem) (hb b mem')
    case map.map es fs =>
      rw [keysOnce_map] at ha hb
      refine looseEqEntries_comm ha.1 hb.1 fun e mem f mem' => ?_
      exact ih e.2 (List.mem_map_of_mem mem) (ha.2 e mem) (hb.2 f mem')
    all_goals simp only [looseEq, numericEq_comm, Bool.beq_comm, BEq.comm]

theorem looseEq_self_iff (h : v.KeysOnce) :
    looseEq v v = true ↔ v.AllNumbers fun x => x.isNaN = false := by
  induction v using parts_induction with
  | step v ih =>
    cases v
    case number x => simp [looseEq]
    case array items =>
      rw [keysOnce_array] at h
      rw [looseEq, looseEqItems_self, allNumbers_array]
      exact forall₂_congr fun v mem => ih v mem (h v mem)
    case map entries =>
      rw [keysOnce_map] at h
      rw [looseEq, beq_self_eq_true, Bool.true_and, looseEqEntries_self h.1, allNumbers_map]
      exact forall₂_congr fun e mem => ih e.2 (List.mem_map_of_mem mem) (h.2 e mem)
    all_goals simp [looseEq, AllNumbers, numbers]

/-- **The equality of the language is symmetric**, and a value equals itself exactly when each
number in it does. -/
theorem looseEq_comm_and_self (ha : a.KeysOnce) (hb : b.KeysOnce) :
    looseEq a b = looseEq b a ∧ (looseEq a a = true ↔ ∀ x ∈ a.numbers, x.isNaN = false) :=
  ⟨looseEq_comm ha hb, looseEq_self_iff ha⟩

/-- A map with a number, and a boolean and a text that read as numbers. -/
def stated : Value :=
  map [("level", number 2), ("tags", array [bool true, string "7", null])]

/-- The same map with other kinds of data in it. -/
def restated : Value :=
  map [("level", string " 2 "), ("tags", array [number 1, number 7, null])]

theorem stated_looseEq_comm_and_self :
    stated.KeysOnce ∧ restated.KeysOnce ∧ looseEq stated restated = looseEq restated stated ∧
      (looseEq stated stated = true ↔ ∀ x ∈ stated.numbers, x.isNaN = false) := by
  have once : stated.KeysOnce := by
    simp [stated, KeysOnce, KeysOnceEntries, KeysOnceItems, Entries.keys]
  have once' : restated.KeysOnce := by
    simp [restated, KeysOnce, KeysOnceEntries, KeysOnceItems, Entries.keys]
  exact ⟨once, once', looseEq_comm_and_self once once'⟩

example : looseEq stated restated = true := by decide

end SheetScript.Value
