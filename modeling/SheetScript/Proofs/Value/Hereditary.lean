import SheetScript.Proofs.Entries
import SheetScript.Run.Builtin
import SheetScript.Run.Interpreter

/-!
# Hereditary properties of values

An operation of the language makes arrays and maps of the items and values that it is given, and no
functions or objects at all. So there are properties that what an operation gives has if its
operands have them.

* `Value.Kept` asks for what the operations need: an array has the property exactly if its items
  have it, and a map has it as long as it is filled with values that have it.
* `Kept.get`, `Kept.put`, `Kept.apply` and the others go through the operations.
* `Value.Hereditary` is the kind that only functions and objects can lack: a map has it exactly if
  its values have it, and all data of the host has it (`Hereditary.ofJson`).
* `Scopes.All` says that the values that variables have, have a property.
-/

namespace SheetScript

/-- A chain of two steps gives what the second one gives on what the first one gives. -/
theorem Except.exists_of_bind_eq_ok {ε α β : Type} {r : Except ε α} {f : α → Except ε β} {b : β}
    (h : (r >>= f) = .ok b) : ∃ a, r = .ok a ∧ f a = .ok b := by
  cases r with
  | error e => nomatch h
  | ok a => exact ⟨a, rfl, h⟩

/-- A step on a result is taken only if there is a result. -/
theorem Act.exists_of_ofExcept_bind_eq_ok {σ α β : Type} {r : Except ScriptError α}
    {f : α → Act σ β} {s s' : σ} {b : β} (h : (do f (← MonadExcept.ofExcept r)) s = .ok b s') :
    ∃ a, r = .ok a ∧ f a s = .ok b s' := by
  cases r with
  | error e => nomatch h
  | ok a => exact ⟨a, rfl, h⟩

theorem mem_of_onlyArg {name : String} {args : List Value} {v : Value}
    (h : onlyArg name args = .ok v) : v ∈ args := by
  unfold onlyArg at h
  split at h
  next => exact Except.ok.inj h ▸ List.mem_singleton_self _
  next => simp at h

namespace Value

/-- A property that scalars have, and arrays and maps that are filled with values that have it. -/
structure Kept (P : Value → Prop) : Prop where
  null : P null
  bool : ∀ b, P (bool b)
  number : ∀ x, P (number x)
  string : ∀ s, P (string s)
  array : ∀ {items : List Value}, P (array items) ↔ ∀ v ∈ items, P v
  empty : P (map [])
  values : ∀ {entries : List (String × Value)}, P (map entries) → ∀ entry ∈ entries, P entry.2
  filled : ∀ {entries : List (String × Value)} {v : Value}, P (map entries) → P v →
    ∀ key, P (map (Entries.insert entries key v))

namespace Kept

variable {P : Value → Prop} (H : Kept P) {items args : List Value}
  {entries : List (String × Value)} {container position element left right v : Value}
include H

/-! ## Parts of values -/

theorem ofList {pairs : List (String × Value)} (h : ∀ pair ∈ pairs, P pair.2) :
    P (map (Entries.ofList pairs)) :=
  Entries.ofList_induction (P := fun entries => P (map entries)) H.empty
    fun pair mem _ filled => H.filled filled (h pair mem) pair.1

theorem find?_getD (h : ∀ entry ∈ entries, P entry.2) (key : String) :
    P ((Entries.find? entries key).getD .null) := by
  cases found : Entries.find? entries key with
  | none => exact H.null
  | some v => exact h _ (Entries.mem_of_find? found)

theorem getD (h : ∀ v ∈ items, P v) (i : Nat) : P (items.getD i .null) := by
  rw [List.getD_eq_getElem?_getD]
  cases found : items[i]? with
  | none => exact H.null
  | some v => exact h v (List.mem_of_getElem? found)

/-! ## Positions -/

theorem get (h : P container) (got : container.get position = .ok v) : P v := by
  cases container with
  | array items =>
    simp only [Value.get] at got
    cases index : position.index? items.length with
    | error e => simp [index, Except.map] at got
    | ok i =>
      obtain rfl : items.getD i .null = v := by simpa [index, Except.map] using got
      exact H.getD (H.array.1 h) i
  | string s =>
    simp only [Value.get] at got
    cases index : position.index? s.toList.length with
    | error e => simp [index, Except.map] at got
    | ok i =>
      simp only [index, Except.map, Except.ok.injEq] at got
      exact got ▸ H.string _
  | map entries =>
    obtain rfl := Except.ok.inj got
    exact H.find?_getD (H.values h) _
  | _ => simp [Value.get] at got

theorem put (h : P container) (he : P element)
    (done : container.put position element = .ok v) : P v := by
  cases container with
  | array items =>
    have h := H.array.1 h
    simp only [Value.put] at done
    split_ifs at done
    · obtain rfl := Except.ok.inj done
      refine H.array.2 fun w mem => ?_
      rcases List.mem_append.1 mem with mem | mem
      · exact h w mem
      · exact List.mem_singleton.1 mem ▸ he
    · cases index : position.index? items.length with
      | error e => simp [index, Except.map] at done
      | ok i =>
        simp only [index, Except.map, Except.ok.injEq] at done
        subst done
        refine H.array.2 fun w mem => ?_
        rcases List.mem_or_eq_of_mem_set mem with mem | rfl
        · exact h w mem
        · exact he
  | map entries =>
    obtain rfl := Except.ok.inj done
    exact H.filled h he _
  | _ => simp [Value.put] at done

/-! ## Operators -/

theorem onNumbers (op : Operator) (a b : Float) : P (op.onNumbers a b) := by
  cases op with
  | equal | notEqual | less | greater | lessEqual | greaterEqual => exact H.bool _
  | _ => exact H.number _

theorem onTexts (op : Operator) {a b : String} (h : op.onTexts? a b = some v) : P v := by
  cases op with
  | add => exact Option.some.inj h ▸ H.string _
  | less | greater | lessEqual | greaterEqual => exact Option.some.inj h ▸ H.bool _
  | _ => simp [Operator.onTexts?] at h

theorem join (hl : P left) (hr : P right) (h : Operator.join? left right = some v) : P v := by
  unfold Operator.join? at h
  split at h
  next => exact Option.some.inj h ▸ H.string _
  next => exact Option.some.inj h ▸ H.string _
  next as bs =>
    obtain rfl := Option.some.inj h
    refine H.array.2 fun w mem => ?_
    exact (List.mem_append.1 mem).elim (H.array.1 hl w) (H.array.1 hr w)
  next => simp at h

theorem apply (op : Operator) (hl : P left) (hr : P right) (h : op.apply left right = .ok v) :
    P v := by
  unfold Operator.apply at h
  split at h
  next => exact Except.ok.inj h ▸ H.bool _
  next => exact Except.ok.inj h ▸ H.bool _
  next =>
    dsimp only at h
    split at h
    next found =>
      obtain rfl := Except.ok.inj h
      split at found
      next a b => exact Option.some.inj found ▸ H.onNumbers op a b
      next => exact H.onTexts op found
      next =>
        split_ifs at found
        exact H.join hl hr found
    next => simp at h

theorem unary (op : Unary) {operand : Value} (h : op.apply operand = .ok v) : P v := by
  cases op with
  | negate =>
    simp only [Unary.apply] at h
    split at h
    · exact Except.ok.inj h ▸ H.number _
    · simp at h
  | not => exact Except.ok.inj h ▸ H.bool _

theorem combine {op : Option Operator} {old : Except ScriptError Value}
    {value : Value} (ho : ∀ w, old = .ok w → P w) (hv : P value)
    (h : Target.combine op old value = .ok v) : P v := by
  cases op with
  | none => exact Except.ok.inj h ▸ hv
  | some op =>
    cases old with
    | error e => simp [Target.combine, bind, Except.bind] at h
    | ok w => exact H.apply op (ho w rfl) hv h

/-! ## Loops -/

/-- What a loop goes over has the property. -/
theorem iterate {iteration : Iteration} (hv : P v) (h : Iteration.ofValue v = .ok iteration) :
    (∃ count, iteration = .upTo count) ∨
      ∃ values, iteration = .items values ∧ ∀ w ∈ values, P w := by
  cases v with
  | array values => exact .inr ⟨values, (Except.ok.inj h).symm, H.array.1 hv⟩
  | number x => exact .inl ⟨_, (Except.ok.inj h).symm⟩
  | string s =>
    refine .inr ⟨_, (Except.ok.inj h).symm, fun w mem => ?_⟩
    obtain ⟨c, -, rfl⟩ := List.mem_map.1 mem
    exact H.string _
  | map entries =>
    refine .inr ⟨_, (Except.ok.inj h).symm, fun w mem => ?_⟩
    obtain ⟨key, -, rfl⟩ := List.mem_map.1 mem
    exact H.string _
  | _ => simp [Iteration.ofValue] at h

/-! ## Methods and built-in functions -/

theorem drawItem {c c' : Context} (hi : ∀ w ∈ items, P w)
    (h : ArrayMethod.drawItem items c = .ok v c') : P v := by
  cases items with
  | nil =>
    obtain ⟨rfl, -⟩ := EStateM.Result.ok.inj h
    exact H.null
  | cons w rest =>
    obtain ⟨rfl, -⟩ := EStateM.Result.ok.inj h
    exact hi _ (List.get_mem _ _)

theorem arrayMethod (m : ArrayMethod) {c c' : Context} (hi : ∀ w ∈ items, P w)
    (h : m.call items args c = .ok v c') : P v := by
  obtain ⟨-, -, h⟩ := Act.exists_of_ofExcept_bind_eq_ok h
  cases m with
  | random => exact H.drawItem hi h
  | count =>
    obtain ⟨rfl, -⟩ := EStateM.Result.ok.inj h
    exact H.number _
  | first =>
    obtain ⟨rfl, -⟩ := EStateM.Result.ok.inj h
    cases found : items.head? with
    | none => exact H.null
    | some w => exact hi w (List.mem_of_head? found)
  | last =>
    obtain ⟨rfl, -⟩ := EStateM.Result.ok.inj h
    cases found : items.getLast? with
    | none => exact H.null
    | some w => exact hi w (List.mem_of_getLast? found)
  | filter | filterEmpty =>
    obtain ⟨rfl, -⟩ := EStateM.Result.ok.inj h
    exact H.array.2 fun w mem => hi w (List.mem_filter.1 mem).1

theorem unaryMath {b : Builtin} {f : Float → Float} (h : b.unaryMath f args = .ok v) : P v := by
  obtain ⟨arg, -, h⟩ := Except.exists_of_bind_eq_ok h
  obtain ⟨x, -, h⟩ := Except.exists_of_bind_eq_ok h
  exact Except.ok.inj h ▸ H.number _

theorem choice {b : Builtin} {f : Float → Float → Float} (h : b.choice f args = .ok v) : P v := by
  unfold Builtin.choice at h
  dsimp only at h
  have given : args.isEmpty ≠ true := fun empty => by
    rw [if_pos empty] at h
    split at h <;> cases h
  rw [if_neg given] at h
  split at h
  next => exact Except.ok.inj h ▸ H.null
  next =>
    obtain ⟨start, -, h⟩ := Except.exists_of_bind_eq_ok h
    obtain ⟨result, -, h⟩ := Except.exists_of_bind_eq_ok h
    exact Except.ok.inj h ▸ H.number _

/-- What a function gives that only looks at its arguments is a number, a text or `null`. -/
theorem pure? (b : Builtin) (h : b.pure? args = some (.ok v)) : P v := by
  cases b with
  | floor | ceil | round | abs | sqrt => exact H.unaryMath (Option.some.inj h)
  | min | max => exact H.choice (Option.some.inj h)
  | pow =>
    obtain ⟨pair, -, h⟩ := Except.exists_of_bind_eq_ok (Option.some.inj h)
    obtain ⟨x, -, h⟩ := Except.exists_of_bind_eq_ok h
    obtain ⟨y, -, h⟩ := Except.exists_of_bind_eq_ok h
    exact Except.ok.inj h ▸ H.number _
  | number =>
    obtain ⟨arg, -, h⟩ := Except.exists_of_bind_eq_ok (Option.some.inj h)
    exact Except.ok.inj h ▸ H.number _
  | string =>
    obtain ⟨arg, -, h⟩ := Except.exists_of_bind_eq_ok (Option.some.inj h)
    exact Except.ok.inj h ▸ H.string _
  | _ => simp [Builtin.pure?] at h

end Kept

/-- A property that only functions and objects can lack, and arrays and maps through them. -/
structure Hereditary (P : Value → Prop) : Prop extends Kept P where
  chart : ∀ t, P (chart t)
  row : ∀ r, P (row r)
  map : ∀ {entries : List (String × Value)}, P (map entries) ↔ ∀ entry ∈ entries, P entry.2
  empty := map.2 fun _ mem => absurd mem List.not_mem_nil
  values := map.1
  filled := fun h hv _ => map.2 fun entry mem => (Entries.mem_of_mem_insert mem).elim
    (fun eq => eq ▸ hv) (map.1 h entry)

namespace Hereditary

variable {P : Value → Prop} (H : Hereditary P) {args : List Value}
  {entries : List (String × Value)} {v : Value}

/-! ## Entries -/

theorem insert (h : ∀ entry ∈ entries, P entry.2) (key : String) (hv : P v) :
    ∀ entry ∈ Entries.insert entries key v, P entry.2 := by
  intro entry mem
  rcases Entries.mem_of_mem_insert mem with rfl | mem
  · exact hv
  · exact h entry mem

theorem ofList {pairs : List (String × Value)} (h : ∀ pair ∈ pairs, P pair.2) :
    ∀ entry ∈ Entries.ofList pairs, P entry.2 :=
  fun entry mem => h entry (Entries.mem_of_mem_ofList mem)

/-! ## Data of the host -/

mutual

/-- Data of the host has the property. -/
theorem ofJson (H : Hereditary P) : ∀ json : Json, P (Value.ofJson json)
  | .null => H.null
  | .bool b => H.bool b
  | .integer _ => H.number _
  | .real x => H.number x
  | .string s => H.string s
  | .array items => H.array.2 (ofJsonItems H items)
  | .object members => H.map.2 (ofJsonMembers H members)

theorem ofJsonItems (H : Hereditary P) : ∀ items : List Json, ∀ v ∈ Value.ofJsonItems items, P v
  | [] => fun _ mem => absurd mem List.not_mem_nil
  | json :: rest => List.forall_mem_cons.2 ⟨ofJson H json, ofJsonItems H rest⟩

theorem ofJsonMembers (H : Hereditary P) : ∀ members : List (String × Json),
    ∀ entry ∈ Value.ofJsonMembers members, P entry.2
  | [] => fun _ mem => absurd mem List.not_mem_nil
  | (_, json) :: rest => List.forall_mem_cons.2 ⟨ofJson H json, ofJsonMembers H rest⟩

end

include H

theorem column {t : Table} {header : String} {cells : List Value}
    (h : t.column header = .ok cells) : ∀ w ∈ cells, P w := by
  unfold Table.column at h
  split at h
  next => simp at h
  next =>
    split_ifs at h
    obtain rfl := Except.ok.inj h
    intro w mem
    obtain ⟨row, -, rfl⟩ := List.mem_map.1 mem
    exact H.ofJson _

theorem valueIn (r : Row) (header : String) : P (r.valueIn header) := by
  unfold Row.valueIn
  split
  · exact H.null
  · exact H.ofJson _

theorem rowMethod (m : RowMethod) {r : Row} (h : m.call r args = .ok v) : P v := by
  cases m with
  | valueInColumn =>
    obtain ⟨arg, -, done⟩ := Except.exists_of_bind_eq_ok h
    exact Except.ok.inj done ▸ H.valueIn r _
  | count =>
    obtain ⟨-, -, done⟩ := Except.exists_of_bind_eq_ok h
    exact Except.ok.inj done ▸ H.number _

end Hereditary

end Value

/-! ## Variables -/

/-- The values that scopes bind have a property. -/
def Scopes.All (P : Value → Prop) (scopes : Scopes) : Prop :=
  ∀ place, ∀ entry ∈ scopes.getD place [], P entry.2

namespace Scopes.All

variable {P : Value → Prop} {scopes : Scopes}

/-- At the start of a run, one scope binds nothing. -/
theorem start : Scopes.All P #[[]] := fun place entry mem => by
  have unbound : (#[[]] : Scopes).getD place [] = [] := by cases place <;> rfl
  rw [unbound] at mem
  exact absurd mem List.not_mem_nil

variable (h : scopes.All P)
include h

theorem lookup? {chain : Chain} {name : String} {v : Value}
    (found : scopes.lookup? chain name = some v) : P v := by
  obtain ⟨place, -, found⟩ := List.exists_of_findSome?_eq_some found
  exact h place _ (Entries.mem_of_find? found)

theorem define (place : Nat) (name : String) {v : Value} (hv : P v) :
    (scopes.define place name v).All P := by
  intro other
  unfold Scopes.define
  rw [Array.getD_eq_getD_getElem?, Array.getElem?_modify]
  have before := h other
  rw [Array.getD_eq_getD_getElem?] at before
  split_ifs
  · cases bindings : scopes[other]? with
    | none => exact fun _ mem => absurd mem List.not_mem_nil
    | some bindings' =>
      rw [bindings] at before
      exact Value.Hereditary.insert before name hv
  · exact before

theorem push {bindings : Entries Value} (hb : ∀ entry ∈ bindings, P entry.2) :
    Scopes.All P (scopes.push bindings) := by
  intro other
  rw [Array.getD_eq_getD_getElem?, Array.getElem?_push]
  split_ifs
  · exact hb
  · have before := h other
    rwa [Array.getD_eq_getD_getElem?] at before

end Scopes.All

end SheetScript
