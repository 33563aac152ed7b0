import SheetScript.Proofs.Value.Hereditary

/-!
# The objects in a value

A value may hold objects of the host, at any depth in arrays and maps. No operation of the language
makes one up: the objects in a result are among those in the operands.

* `Value.objects` lists the objects in a value, and `Value.HoldsOnly` says that all of them are of a
  kind.
* `Value.hereditary_holdsOnly`: that is a hereditary property, so that each operation keeps to
  objects of that kind.
-/

namespace SheetScript

namespace Value

mutual

/-- The objects in a value. -/
def objects : Value → List ObjectRef
  | array items => objectsOfItems items
  | map entries => objectsOfEntries entries
  | object o => [o]
  | _ => []

/-- The objects in the items of an array. -/
def objectsOfItems : List Value → List ObjectRef
  | [] => []
  | v :: rest => v.objects ++ objectsOfItems rest

/-- The objects in the entries of a map. -/
def objectsOfEntries : List (String × Value) → List ObjectRef
  | [] => []
  | (_, v) :: rest => v.objects ++ objectsOfEntries rest

end

/-- All objects in a value are of a kind. -/
def HoldsOnly (kind : ObjectRef → Prop) (v : Value) : Prop := ∀ o ∈ v.objects, kind o

variable {kind : ObjectRef → Prop} {items : List Value} {entries : List (String × Value)}

theorem mem_objectsOfItems {o : ObjectRef} :
    o ∈ objectsOfItems items ↔ ∃ v ∈ items, o ∈ v.objects := by
  induction items with
  | nil => simp [objectsOfItems]
  | cons v rest ih => simp [objectsOfItems, ih]

theorem mem_objectsOfEntries {o : ObjectRef} :
    o ∈ objectsOfEntries entries ↔ ∃ entry ∈ entries, o ∈ entry.2.objects := by
  induction entries with
  | nil => simp [objectsOfEntries]
  | cons entry rest ih =>
    obtain ⟨key, v⟩ := entry
    simp [objectsOfEntries, ih]

/-- A value without objects holds only objects of any kind. -/
theorem holdsOnly_of_nil {v : Value} (h : v.objects = []) : v.HoldsOnly kind := fun o mem => by
  rw [h] at mem
  exact absurd mem List.not_mem_nil

@[simp] theorem holdsOnly_object {o : ObjectRef} : HoldsOnly kind (object o) ↔ kind o := by
  simp [HoldsOnly, objects]

@[simp] theorem holdsOnly_array :
    HoldsOnly kind (array items) ↔ ∀ v ∈ items, v.HoldsOnly kind := by
  simp only [HoldsOnly, objects, mem_objectsOfItems]
  exact ⟨fun h v mem o ho => h o ⟨v, mem, ho⟩, fun h o ⟨v, mem, ho⟩ => h v mem o ho⟩

@[simp] theorem holdsOnly_map :
    HoldsOnly kind (map entries) ↔ ∀ entry ∈ entries, entry.2.HoldsOnly kind := by
  simp only [HoldsOnly, objects, mem_objectsOfEntries]
  exact ⟨fun h v mem o ho => h o ⟨v, mem, ho⟩, fun h o ⟨v, mem, ho⟩ => h v mem o ho⟩

/-- To hold only objects of a kind is hereditary. -/
theorem hereditary_holdsOnly (kind : ObjectRef → Prop) : Hereditary (HoldsOnly kind) where
  null := holdsOnly_of_nil rfl
  bool _ := holdsOnly_of_nil rfl
  number _ := holdsOnly_of_nil rfl
  string _ := holdsOnly_of_nil rfl
  chart _ := holdsOnly_of_nil rfl
  row _ := holdsOnly_of_nil rfl
  array := holdsOnly_array
  map := holdsOnly_map

theorem holdsOnly_false_iff {v : Value} : v.HoldsOnly (fun _ => False) ↔ v.objects = [] :=
  List.eq_nil_iff_forall_not_mem.symm

/-! ## Parts of values -/

theorem holdsOnly_find? (h : ∀ entry ∈ entries, entry.2.HoldsOnly kind) {key : String} {v : Value}
    (found : Entries.find? entries key = some v) : v.HoldsOnly kind :=
  h _ (Entries.mem_of_find? found)

theorem holdsOnly_find?_getD (h : ∀ entry ∈ entries, entry.2.HoldsOnly kind) (key : String) :
    ((Entries.find? entries key).getD null).HoldsOnly kind :=
  (hereditary_holdsOnly kind).find?_getD h key

theorem holdsOnly_insert (h : ∀ entry ∈ entries, entry.2.HoldsOnly kind) (key : String) {v : Value}
    (hv : v.HoldsOnly kind) : ∀ entry ∈ Entries.insert entries key v, entry.2.HoldsOnly kind :=
  Hereditary.insert h key hv

theorem holdsOnly_ofList {pairs : List (String × Value)}
    (h : ∀ pair ∈ pairs, pair.2.HoldsOnly kind) :
    ∀ entry ∈ Entries.ofList pairs, entry.2.HoldsOnly kind :=
  Hereditary.ofList h

/-- Data of the host holds no objects. -/
theorem objects_ofJson (json : Json) : (ofJson json).objects = [] :=
  holdsOnly_false_iff.1 ((hereditary_holdsOnly _).ofJson json)

/-! ## Positions -/

variable {container position element v : Value}

theorem holdsOnly_get (h : container.HoldsOnly kind) (got : container.get position = .ok v) :
    v.HoldsOnly kind := (hereditary_holdsOnly kind).get h got

theorem holdsOnly_put (h : container.HoldsOnly kind) (he : element.HoldsOnly kind)
    (done : container.put position element = .ok v) : v.HoldsOnly kind :=
  (hereditary_holdsOnly kind).put h he done

end Value

/-! ## Operators -/

variable {kind : ObjectRef → Prop} {left right v : Value}

theorem Operator.holdsOnly_apply (op : Operator) (hl : left.HoldsOnly kind)
    (hr : right.HoldsOnly kind) (h : op.apply left right = .ok v) : v.HoldsOnly kind :=
  (Value.hereditary_holdsOnly kind).apply op hl hr h

theorem Unary.holdsOnly_apply (op : Unary) {operand : Value} (h : op.apply operand = .ok v) :
    v.HoldsOnly kind := (Value.hereditary_holdsOnly kind).unary op h

theorem Target.holdsOnly_combine {op : Option Operator} {old : Except ScriptError Value}
    {value : Value} (ho : ∀ w, old = .ok w → w.HoldsOnly kind) (hv : value.HoldsOnly kind)
    (h : combine op old value = .ok v) : v.HoldsOnly kind :=
  (Value.hereditary_holdsOnly kind).combine ho hv h

/-! ## Loops -/

/-- What a loop goes over holds only objects of a kind. -/
def Iteration.HoldsOnly (kind : ObjectRef → Prop) : Iteration → Prop
  | items values => ∀ v ∈ values, v.HoldsOnly kind
  | upTo _ => True

theorem Iteration.holdsOnly_ofValue {iteration : Iteration} (hv : v.HoldsOnly kind)
    (h : ofValue v = .ok iteration) : iteration.HoldsOnly kind := by
  obtain ⟨count, rfl⟩ | ⟨values, rfl, hold⟩ := (Value.hereditary_holdsOnly kind).iterate hv h
  · trivial
  · exact hold

/-! ## Methods and built-in functions -/

theorem ArrayMethod.holdsOnly_call (m : ArrayMethod) {items args : List Value} {c c' : Context}
    (hi : ∀ w ∈ items, w.HoldsOnly kind) (h : m.call items args c = .ok v c') :
    v.HoldsOnly kind :=
  (Value.hereditary_holdsOnly kind).arrayMethod m hi h

theorem Table.holdsOnly_column {t : Table} {header : String} {cells : List Value}
    (h : t.column header = .ok cells) : ∀ w ∈ cells, w.HoldsOnly kind :=
  (Value.hereditary_holdsOnly kind).column h

theorem RowMethod.objects_call (m : RowMethod) {r : Row} {args : List Value}
    (h : m.call r args = .ok v) : v.objects = [] :=
  Value.holdsOnly_false_iff.1 ((Value.hereditary_holdsOnly _).rowMethod m h)

/-- What a function gives that only looks at its arguments is a number, a text or `null`. -/
theorem Builtin.objects_pure? (b : Builtin) {args : List Value}
    (h : b.pure? args = some (.ok v)) : v.objects = [] :=
  Value.holdsOnly_false_iff.1 ((Value.hereditary_holdsOnly _).pure? b h)

end SheetScript
