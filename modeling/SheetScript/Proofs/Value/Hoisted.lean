import SheetScript.Proofs.Entries
import SheetScript.Proofs.Program.Hoisted

/-!
# Values with hoisted functions

The functions in a value with the declarations at the front of all blocks in their bodies. No
operation on values looks into the body of a function, so each of them goes with hoisting.

* `Value.hoisted` hoists the functions in a value.
* `Value.display_hoisted`, `Value.looseEq_hoisted` and the others go through what looks at a value;
  `Value.get_hoisted`, `Operator.apply_hoisted` and the others through what makes values of values.
-/

namespace SheetScript

namespace Entries

variable {α β : Type}

/-- The same keys with other values. -/
def mapValues (f : α → β) (entries : Entries α) : Entries β :=
  entries.map fun entry => (entry.1, f entry.2)

theorem find?_mapValues (f : α → β) (entries : Entries α) (key : String) :
    find? (mapValues f entries) key = (find? entries key).map f := by
  induction entries with
  | nil => rfl
  | cons entry rest ih =>
    change (if entry.1 == key then _ else find? (mapValues f rest) key) = _
    rw [find?, ih]
    split <;> rfl

theorem insert_mapValues (f : α → β) (entries : Entries α) (key : String) (value : α) :
    insert (mapValues f entries) key (f value) = mapValues f (insert entries key value) := by
  induction entries with
  | nil => rfl
  | cons entry rest ih =>
    change (if entry.1 == key then _ else if key < entry.1 then _
      else _ :: insert (mapValues f rest) key (f value)) = _
    rw [insert, ih]
    split
    · rfl
    · split <;> rfl

theorem ofList_mapValues (f : α → β) (pairs : List (String × α)) :
    ofList (mapValues f pairs) = mapValues f (ofList pairs) := by
  have from_any : ∀ (pairs : List (String × α)) (start : Entries α),
      (mapValues f pairs).foldl (fun entries pair => insert entries pair.1 pair.2)
        (mapValues f start) =
      mapValues f (pairs.foldl (fun entries pair => insert entries pair.1 pair.2) start) := by
    intro pairs
    induction pairs with
    | nil => exact fun _ => rfl
    | cons pair rest ih =>
      intro start
      change (mapValues f rest).foldl _ (insert (mapValues f start) pair.1 (f pair.2)) = _
      rw [insert_mapValues, ih]
      rfl
  exact from_any pairs []

theorem keys_mapValues (f : α → β) (entries : Entries α) :
    keys (mapValues f entries) = keys entries := by
  rw [keys, mapValues, List.map_map]
  rfl

theorem length_mapValues (f : α → β) (entries : Entries α) :
    (mapValues f entries).length = entries.length := List.length_map _

section

variable {entries : Entries α} {key k : String} {value v : α}

theorem insert_cons_self : insert ((key, value) :: entries) key v = (key, v) :: entries :=
  if_pos (beq_self_eq_true key)

theorem insert_cons_of_lt (h : k < key) :
    insert ((key, value) :: entries) k v = (k, v) :: (key, value) :: entries := by
  rw [insert, if_neg (by simpa using h.ne'), if_pos h]

theorem insert_cons_of_gt (h : key < k) :
    insert ((key, value) :: entries) k v = (key, value) :: insert entries k v := by
  rw [insert, if_neg (by simpa using h.ne), if_neg h.not_gt]

end

/-- It does not matter which of two keys is set first. -/
theorem insert_comm (entries : Entries α) {k k' : String} (apart : k ≠ k') (v v' : α) :
    insert (insert entries k v) k' v' = insert (insert entries k' v') k v := by
  wlog less : k < k' generalizing k k' v v'
  · exact (this apart.symm v' v (apart.lt_or_gt.resolve_left less)).symm
  induction entries with
  | nil =>
    change insert [(k, v)] k' v' = insert [(k', v')] k v
    rw [insert_cons_of_gt less, insert_cons_of_lt less]
    rfl
  | cons entry rest ih =>
    obtain ⟨key, value⟩ := entry
    obtain before | rfl | behind := lt_trichotomy k key
    · rw [insert_cons_of_lt before, insert_cons_of_gt less]
      obtain before' | rfl | behind' := lt_trichotomy k' key
      · rw [insert_cons_of_lt before', insert_cons_of_lt less]
      · rw [insert_cons_self, insert_cons_of_lt less]
      · rw [insert_cons_of_gt behind', insert_cons_of_lt before]
    · rw [insert_cons_self, insert_cons_of_gt less, insert_cons_of_gt less, insert_cons_self]
    · rw [insert_cons_of_gt behind, insert_cons_of_gt (behind.trans less),
        insert_cons_of_gt (behind.trans less), insert_cons_of_gt behind, ih]

end Entries

/-- A function value with its declaration hoisted. -/
def Closure.hoisted (f : Closure) : Closure := { f with decl := f.decl.hoisted }

theorem Closure.hoisted_eq_iff {f f' : Closure} : f.hoisted = f'.hoisted ↔
    f.entry = f'.entry ∧ f.decl.hoisted = f'.decl.hoisted ∧ f.scopes = f'.scopes := by
  rw [hoisted, hoisted, mk.injEq]

namespace Value

mutual

/-- A value with the functions in it hoisted. -/
def hoisted : Value → Value
  | array items => array (hoistedItems items)
  | map entries => map (hoistedEntries entries)
  | function f => function f.hoisted
  | v => v

/-- The items of an array with the functions in them hoisted. -/
def hoistedItems : List Value → List Value
  | [] => []
  | v :: rest => v.hoisted :: hoistedItems rest

/-- The entries of a map with the functions in them hoisted. -/
def hoistedEntries : List (String × Value) → List (String × Value)
  | [] => []
  | (key, v) :: rest => (key, v.hoisted) :: hoistedEntries rest

end

theorem hoistedItems_eq (items : List Value) : hoistedItems items = items.map hoisted := by
  induction items with
  | nil => rfl
  | cons v rest ih => rw [hoistedItems, ih, List.map_cons]

theorem hoistedEntries_eq (entries : List (String × Value)) :
    hoistedEntries entries = Entries.mapValues hoisted entries := by
  induction entries with
  | nil => rfl
  | cons entry rest ih =>
    obtain ⟨key, v⟩ := entry
    rw [hoistedEntries, ih]
    rfl

@[simp] theorem hoisted_array (items : List Value) :
    (array items).hoisted = array (items.map hoisted) := by
  rw [hoisted, hoistedItems_eq]

@[simp] theorem hoisted_map (entries : List (String × Value)) :
    (map entries).hoisted = map (Entries.mapValues hoisted entries) := by
  rw [hoisted, hoistedEntries_eq]

@[simp] theorem hoisted_function (f : Closure) : (function f).hoisted = function f.hoisted := rfl
@[simp] theorem hoisted_null : null.hoisted = null := rfl
@[simp] theorem hoisted_bool (b : Bool) : (bool b).hoisted = bool b := rfl
@[simp] theorem hoisted_number (x : Float) : (number x).hoisted = number x := rfl
@[simp] theorem hoisted_string (s : String) : (string s).hoisted = string s := rfl
@[simp] theorem hoisted_builtin (b : Builtin) : (builtin b).hoisted = builtin b := rfl
@[simp] theorem hoisted_native (f : NativeRef) : (native f).hoisted = native f := rfl
@[simp] theorem hoisted_chart (t : Table) : (chart t).hoisted = chart t := rfl
@[simp] theorem hoisted_row (r : Row) : (row r).hoisted = row r := rfl
@[simp] theorem hoisted_object (o : ObjectRef) : (object o).hoisted = object o := rfl

/-- How two values look that are the same when hoisted. -/
inductive Alike : Value → Value → Prop
  | same (v : Value) : Alike v v
  | array {items items' : List Value} (h : items.map hoisted = items'.map hoisted) :
      Alike (array items) (array items')
  | map {entries entries' : List (String × Value)}
      (h : Entries.mapValues hoisted entries = Entries.mapValues hoisted entries') :
      Alike (map entries) (map entries')
  | function {f f' : Closure} (h : f.hoisted = f'.hoisted) : Alike (function f) (function f')

theorem alike_of_hoisted_eq {v v' : Value} (h : v.hoisted = v'.hoisted) : Alike v v' := by
  cases v with
  | array items =>
    cases v' with
    | array items' =>
      rw [hoisted_array, hoisted_array] at h
      exact .array (Value.array.inj h)
    | _ => cases h
  | map entries =>
    cases v' with
    | map entries' =>
      rw [hoisted_map, hoisted_map] at h
      exact .map (Value.map.inj h)
    | _ => cases h
  | function f =>
    cases v' with
    | function f' => exact .function (Value.function.inj h)
    | _ => cases h
  | _ =>
    cases v' <;> cases h
    exact .same _

/-! ## What looks at a value -/

@[simp] theorem typeName_hoisted (v : Value) : v.hoisted.typeName = v.typeName := by
  cases v <;> simp [typeName]

@[simp] theorem truthy_hoisted (v : Value) : v.hoisted.truthy = v.truthy := by
  cases v <;> simp [truthy]

@[simp] theorem asNumber?_hoisted (v : Value) : v.hoisted.asNumber? = v.asNumber? := by
  cases v <;> simp [asNumber?]

@[simp] theorem toNumber?_hoisted (v : Value) : v.hoisted.toNumber? = v.toNumber? := by
  cases v <;> simp [toNumber?]

mutual

@[simp] theorem display_hoisted : ∀ v : Value, v.hoisted.display = v.display
  | array items => by rw [hoisted, display, display, displayItems_hoisted items]
  | map entries => by rw [hoisted, display, display, displayEntries_hoisted entries]
  | function _ | null | bool _ | number _ | string _ | builtin _ | native _ | chart _ | row _
  | object _ => rfl

theorem displayItems_hoisted : ∀ items : List Value,
    displayItems (hoistedItems items) = displayItems items
  | [] => rfl
  | v :: rest => by
    rw [hoistedItems, displayItems, displayItems, display_hoisted v, displayItems_hoisted rest]

theorem displayEntries_hoisted : ∀ entries : List (String × Value),
    displayEntries (hoistedEntries entries) = displayEntries entries
  | [] => rfl
  | (key, v) :: rest => by
    rw [hoistedEntries, displayEntries, displayEntries, display_hoisted v,
      displayEntries_hoisted rest]

end

mutual

@[simp] theorem toJson_hoisted : ∀ v : Value, v.hoisted.toJson = v.toJson
  | array items => by rw [hoisted, toJson, toJson, toJsonItems_hoisted items]
  | map entries => by rw [hoisted, toJson, toJson, toJsonEntries_hoisted entries]
  | function _ | null | bool _ | number _ | string _ | builtin _ | native _ | chart _ | row _
  | object _ => rfl

theorem toJsonItems_hoisted : ∀ items : List Value,
    toJsonItems (hoistedItems items) = toJsonItems items
  | [] => rfl
  | v :: rest => by
    rw [hoistedItems, toJsonItems, toJsonItems, toJson_hoisted v, toJsonItems_hoisted rest]

theorem toJsonEntries_hoisted : ∀ entries : List (String × Value),
    toJsonEntries (hoistedEntries entries) = toJsonEntries entries
  | [] => rfl
  | (key, v) :: rest => by
    rw [hoistedEntries, toJsonEntries, toJsonEntries, toJson_hoisted v,
      toJsonEntries_hoisted rest]

end

mutual

/-- To compare with a hoisted value is to compare with the value. -/
@[simp] theorem looseEq_hoisted : ∀ a b : Value, looseEq a b.hoisted = looseEq a b
  | array as, b => by
    cases b with
    | array bs => simp only [hoisted, looseEq, looseEqItems_hoisted as bs]
    | _ => simp [hoisted, looseEq]
  | map as, b => by
    cases b with
    | map bs =>
      simp only [hoisted_map, looseEq, looseEqEntries_hoisted as bs, Entries.length_mapValues]
    | _ => simp [hoisted, looseEq]
  | null, b | bool _, b | number _, b | string _, b | function _, b | builtin _, b | native _, b
  | chart _, b | row _, b | object _, b => by
    cases b <;> simp [hoisted, looseEq, Closure.hoisted, Function.hoisted, numericEq, toNumber?]

theorem looseEqItems_hoisted : ∀ as bs : List Value,
    looseEqItems as (hoistedItems bs) = looseEqItems as bs
  | [], bs => by cases bs <;> rfl
  | a :: as, [] => rfl
  | a :: as, b :: bs => by
    rw [hoistedItems, looseEqItems, looseEqItems, looseEq_hoisted a b, looseEqItems_hoisted as bs]

theorem looseEqEntries_hoisted : ∀ as bs : List (String × Value),
    looseEqEntries as (Entries.mapValues hoisted bs) = looseEqEntries as bs
  | [], bs => rfl
  | (key, a) :: as, bs => by
    rw [looseEqEntries, looseEqEntries, looseEqEntries_hoisted as bs, Entries.find?_mapValues]
    cases Entries.find? bs key with
    | none => rfl
    | some b => simp only [Option.map_some, looseEq_hoisted a b]

end

mutual

/-- To compare a hoisted value is to compare the value. -/
@[simp] theorem hoisted_looseEq : ∀ a b : Value, looseEq a.hoisted b = looseEq a b
  | array as, b => by
    cases b with
    | array bs => simp only [hoisted, looseEq, hoistedItems_looseEq as bs]
    | _ => simp [hoisted, looseEq, numericEq, toNumber?]
  | map as, b => by
    cases b with
    | map bs => simp only [hoisted_map, looseEq, hoistedEntries_looseEq as bs,
        Entries.length_mapValues]
    | _ => simp [hoisted, looseEq, numericEq, toNumber?]
  | function _, b => by cases b <;> rfl
  | null, _ | bool _, _ | number _, _ | string _, _ | builtin _, _ | native _, _ | chart _, _
  | row _, _ | object _, _ => rfl

theorem hoistedItems_looseEq : ∀ as bs : List Value,
    looseEqItems (hoistedItems as) bs = looseEqItems as bs
  | [], _ => rfl
  | a :: as, [] => rfl
  | a :: as, b :: bs => by
    rw [hoistedItems, looseEqItems, looseEqItems, hoisted_looseEq a b, hoistedItems_looseEq as bs]

theorem hoistedEntries_looseEq : ∀ as bs : List (String × Value),
    looseEqEntries (Entries.mapValues hoisted as) bs = looseEqEntries as bs
  | [], bs => rfl
  | (key, a) :: as, bs => by
    change looseEqEntries ((key, a.hoisted) :: Entries.mapValues hoisted as) bs = _
    rw [looseEqEntries, looseEqEntries, hoistedEntries_looseEq as bs]
    simp only [hoisted_looseEq a]

end

/-! ## Positions inside a value -/

@[simp] theorem index?_hoisted (position : Value) (length : Nat) :
    position.hoisted.index? length = position.index? length := by
  unfold index?
  rw [display_hoisted]
  cases position <;> rfl

@[simp] theorem isNextIndex_hoisted (position : Value) (length : Nat) :
    position.hoisted.isNextIndex length = position.isNextIndex length := by
  cases position <;> simp [isNextIndex]

theorem getD_hoisted (items : List Value) (i : Nat) :
    (items.map hoisted).getD i null = (items.getD i null).hoisted := by
  rw [List.getD_eq_getElem?_getD, List.getD_eq_getElem?_getD, List.getElem?_map]
  cases items[i]? <;> rfl

theorem find?_hoisted (entries : List (String × Value)) (key : String) :
    (Entries.find? (Entries.mapValues hoisted entries) key).getD null =
      ((Entries.find? entries key).getD null).hoisted := by
  rw [Entries.find?_mapValues]
  cases Entries.find? entries key <;> rfl

theorem get_hoisted (container position : Value) :
    container.hoisted.get position.hoisted = (container.get position).map hoisted := by
  cases container with
  | array items =>
    simp only [hoisted_array, get, index?_hoisted, List.length_map, getD_hoisted]
    cases position.index? items.length <;> rfl
  | map entries =>
    simp only [hoisted_map, get, display_hoisted, find?_hoisted]
    rfl
  | string s =>
    simp only [hoisted_string, get, index?_hoisted]
    cases position.index? s.toList.length <;> rfl
  | _ => rfl

theorem put_hoisted (container position element : Value) :
    container.hoisted.put position.hoisted element.hoisted =
      (container.put position element).map hoisted := by
  cases container with
  | array items =>
    simp only [hoisted_array, put, isNextIndex_hoisted, index?_hoisted, List.length_map]
    split
    · simp [Except.map]
    · cases position.index? items.length with
      | error e => rfl
      | ok i => simp [Except.map, List.map_set]
  | map entries =>
    simp only [hoisted_map, put, display_hoisted, Entries.insert_mapValues, Except.map]
  | _ => rfl

end Value

/-! ## Operators -/

open Value

namespace Operator

theorem hoisted_onNumbers (op : Operator) (a b : Float) :
    (op.onNumbers a b).hoisted = op.onNumbers a b := by
  cases op <;> rfl

theorem hoisted_onTexts? (op : Operator) (a b : String) :
    (op.onTexts? a b).map hoisted = op.onTexts? a b := by
  cases op <;> rfl

theorem join?_hoisted (left right : Value) :
    join? left.hoisted right.hoisted = (join? left right).map hoisted := by
  cases left with
  | string a =>
    change some (string (a ++ right.hoisted.display)) = _
    rw [display_hoisted]
    rfl
  | array as =>
    cases right with
    | string b =>
      change some (string ((array as).hoisted.display ++ b)) = _
      rw [display_hoisted]
      rfl
    | array bs => simp [join?]
    | _ => rfl
  | map entries =>
    cases right with
    | string b =>
      change some (string ((map entries).hoisted.display ++ b)) = _
      rw [display_hoisted]
      rfl
    | _ => rfl
  | _ => cases right <;> rfl

/-- The value of an operator that is not an equality, if it has one. -/
def value? (op : Operator) (left right : Value) : Option Value :=
  match left, right with
  | .number a, .number b => some (op.onNumbers a b)
  | .string a, .string b => op.onTexts? a b
  | left, right => if op == add then join? left right else none

theorem value?_hoisted (op : Operator) (left right : Value) :
    op.value? left.hoisted right.hoisted = (op.value? left right).map hoisted := by
  have joined : (if op == add then join? left.hoisted right.hoisted else none) =
      (if op == add then join? left right else none).map hoisted := by
    split
    · exact join?_hoisted left right
    · rfl
  cases left with
  | number a =>
    cases right with
    | number b => exact congrArg some (op.hoisted_onNumbers a b).symm
    | _ => exact joined
  | string a =>
    cases right with
    | string b => exact (op.hoisted_onTexts? a b).symm
    | _ => exact joined
  | _ => cases right <;> exact joined

/-- What an operator that is not an equality comes to, given its value. -/
def orMismatch (op : Operator) (left right : Value) : Option Value → Except ScriptError Value
  | some value => .ok value
  | none => .error (op.mismatch left right)

theorem apply_hoisted (op : Operator) (left right : Value) :
    op.apply left.hoisted right.hoisted = (op.apply left right).map hoisted := by
  have others : op.orMismatch left.hoisted right.hoisted (op.value? left.hoisted right.hoisted) =
      (op.orMismatch left right (op.value? left right)).map hoisted := by
    have same : op.mismatch left.hoisted right.hoisted = op.mismatch left right := by
      rw [mismatch, mismatch, typeName_hoisted, typeName_hoisted]
    rw [value?_hoisted]
    cases op.value? left right with
    | some value => rfl
    | none => exact congrArg Except.error same
  cases op with
  | equal | notEqual => simp [apply, Except.map]
  | _ => exact others

end Operator

theorem Unary.apply_hoisted (op : Unary) (operand : Value) :
    op.apply operand.hoisted = (op.apply operand).map hoisted := by
  cases op with
  | negate => cases operand <;> rfl
  | not => simp [Unary.apply, Except.map]

/-! ## Methods and built-in functions -/

variable {name : String} {args : List Value}

theorem checkArity_hoisted (name : String) (args : List Value) (expected : Nat) :
    checkArity name (args.map hoisted) expected = checkArity name args expected := by
  rw [checkArity, checkArity, List.length_map]

theorem numberArg_hoisted (name : String) (arg : Value) :
    numberArg name arg.hoisted = numberArg name arg := by
  rw [numberArg, numberArg, asNumber?_hoisted, typeName_hoisted]

theorem onlyArg_hoisted (name : String) (args : List Value) :
    onlyArg name (args.map hoisted) = (onlyArg name args).map hoisted := by
  match args with
  | [] => rfl
  | [arg] => rfl
  | _ :: _ :: rest => simp [onlyArg, Except.map]

theorem twoArgs_hoisted (name : String) (args : List Value) :
    twoArgs name (args.map hoisted) =
      (twoArgs name args).map fun pair => (pair.1.hoisted, pair.2.hoisted) := by
  match args with
  | [] => rfl
  | [arg] => rfl
  | [first, second] => rfl
  | _ :: _ :: _ :: rest => simp [twoArgs, Except.map]

/-- A step that only looks at the only argument is the same for the hoisted one. -/
theorem onlyArg_bind_hoisted {α : Type} (name : String) (args : List Value)
    {f : Value → Except ScriptError α} (looks : ∀ v : Value, f v.hoisted = f v) :
    (do f (← onlyArg name (args.map hoisted))) = (do f (← onlyArg name args)) := by
  rw [onlyArg_hoisted]
  cases onlyArg name args with
  | error e => rfl
  | ok arg => exact looks arg

theorem ArrayMethod.isEmptyValue_hoisted (v : Value) : isEmptyValue v.hoisted = isEmptyValue v := by
  cases v <;> simp [isEmptyValue]

theorem array_filter_hoisted {keep : Value → Bool} (looks : ∀ v : Value, keep v.hoisted = keep v)
    (items : List Value) :
    array ((items.map hoisted).filter keep) = (array (items.filter keep)).hoisted := by
  rw [hoisted_array, List.filter_map, show keep ∘ hoisted = keep from funext looks]

/-- Which place is drawn depends on the number of elements alone. -/
theorem ArrayMethod.drawItem_hoisted (items : List Value) :
    drawItem (items.map hoisted) = hoisted <$> drawItem items := by
  cases items with
  | nil => rfl
  | cons item rest =>
    funext c
    have same : (c.draws.pick c.draws.position (rest.map hoisted).length : Nat) =
        c.draws.pick c.draws.position rest.length := by rw [List.length_map]
    have drawn : ((item :: rest).map hoisted).get
          (c.draws.pick c.draws.position (rest.map hoisted).length) =
        ((item :: rest).get (c.draws.pick c.draws.position rest.length)).hoisted := by
      simp only [List.get_eq_getElem, List.getElem_map, same]
    exact congrArg (EStateM.Result.ok · _) drawn

theorem ArrayMethod.call_hoisted (m : ArrayMethod) (items args : List Value) :
    m.call (items.map hoisted) (args.map hoisted) = hoisted <$> m.call items args := by
  unfold call
  rw [checkArity_hoisted]
  cases checkArity m.name args 0 with
  | error e => rfl
  | ok _ =>
    cases m with
    | random => exact drawItem_hoisted items
    | count =>
      rw [List.length_map]
      rfl
    | first => cases items <;> rfl
    | last =>
      rw [List.getLast?_map]
      cases items.getLast? <;> rfl
    | filter =>
      exact congrArg (pure (f := Act Context)) (array_filter_hoisted truthy_hoisted items)
    | filterEmpty =>
      exact congrArg (pure (f := Act Context))
        (array_filter_hoisted (fun v => by rw [isEmptyValue_hoisted]) items)

theorem RowMethod.call_hoisted (m : RowMethod) (r : Row) (args : List Value) :
    m.call r (args.map hoisted) = m.call r args := by
  cases m with
  | valueInColumn => exact onlyArg_bind_hoisted _ args fun v => by rw [display_hoisted]
  | count =>
    unfold call
    rw [checkArity_hoisted]

theorem Table.positionsWhere_hoisted (t : Table) (header : String) (value : Value) :
    t.positionsWhere header value.hoisted = t.positionsWhere header value := by
  simp only [positionsWhere, looseEq_hoisted]

theorem Act.ofExcept_map_bind {σ α β γ : Type} (result : Except ScriptError α) (g : α → β)
    (f : β → Act σ γ) : (MonadExcept.ofExcept (result.map g) >>= f : Act σ γ) =
      MonadExcept.ofExcept result >>= fun a => f (g a) := by
  cases result <;> rfl

theorem ChartMethod.call_hoisted (m : ChartMethod) (t : Table) (args : List Value) :
    m.call t (args.map hoisted) = m.call t args := by
  cases m with
  | get => simp only [call, onlyArg_hoisted, Act.ofExcept_map_bind, display_hoisted]
  | rowWhere =>
    simp only [call, twoArgs_hoisted, Act.ofExcept_map_bind, display_hoisted, Table.rowWhere,
      Table.positionsWhere_hoisted]

namespace ObjectRef

theorem callOwner_hoisted (name : String) (args : List Value) :
    callOwner name (args.map hoisted) = callOwner name args := by
  simp only [callOwner, onlyArg_hoisted, Act.ofExcept_map_bind, display_hoisted]

theorem write_hoisted (id : String) (value : Value) : write id value.hoisted = write id value := by
  rw [write, write, toJson_hoisted]

theorem adjust_hoisted (method id name : String) (combine : Float → Float → Float)
    (args : List Value) :
    adjust method id name combine (args.map hoisted) = adjust method id name combine args := by
  simp only [adjust, onlyArg_hoisted, Act.ofExcept_map_bind, numberArg_hoisted]

end ObjectRef

namespace Builtin

theorem attributeNames_hoisted (v : Value) : attributeNames v.hoisted = attributeNames v := by
  cases v with
  | array items => simp [attributeNames, Function.comp_def]
  | _ => exact congrArg (fun text => [text]) (display_hoisted _)

theorem announcement_hoisted (args : List Value) :
    announcement (args.map hoisted) = announcement args := by
  match args with
  | [] => rfl
  | [message] => exact congrArg (fun text => Except.ok (text, none)) (display_hoisted message)
  | [message, id] =>
    have shown := display_hoisted message
    cases id with
    | null => exact congrArg (fun text => Except.ok (text, none)) shown
    | _ => exact congrArg₂ (fun text id => Except.ok (text, some id)) shown (display_hoisted _)
  | _ :: _ :: _ :: rest => simp [announcement]

theorem choice_hoisted (b : Builtin) (f : Float → Float → Float) (args : List Value) :
    b.choice f (args.map hoisted) = b.choice f args := by
  have among : ∀ values : List Value,
      (match values.map hoisted with
      | [] => return .null
      | first :: rest => do
        let start ← numberArg b.name first
        let result ← rest.foldlM (fun x v => (numberArg b.name v).map (f x)) start
        return .number result : Except ScriptError Value) =
      match values with
      | [] => return .null
      | first :: rest => do
        let start ← numberArg b.name first
        let result ← rest.foldlM (fun x v => (numberArg b.name v).map (f x)) start
        return .number result := fun values => by
    cases values with
    | nil => rfl
    | cons first rest => simp only [List.map_cons, numberArg_hoisted, List.foldlM_map]
  match args with
  | [] => rfl
  | [v] =>
    cases v with
    | array items =>
      rw [List.map_singleton, hoisted_array]
      exact among items
    | _ => exact among [_]
  | v :: w :: rest => cases v <;> exact among (_ :: w :: rest)

theorem unaryMath_hoisted (b : Builtin) (f : Float → Float) (args : List Value) :
    b.unaryMath f (args.map hoisted) = b.unaryMath f args :=
  onlyArg_bind_hoisted _ args fun v => by rw [numberArg_hoisted]

theorem pure?_hoisted (b : Builtin) (args : List Value) :
    b.pure? (args.map hoisted) = b.pure? args := by
  cases b with
  | floor | ceil | round | abs | sqrt => exact congrArg some (unaryMath_hoisted ..)
  | min | max => exact congrArg some (choice_hoisted ..)
  | pow =>
    simp only [pure?, twoArgs_hoisted]
    cases twoArgs (name .pow) args with
    | error e => rfl
    | ok pair => simp only [Except.map, bind, Except.bind, numberArg_hoisted]
  | number => exact congrArg some (onlyArg_bind_hoisted _ args fun v => by rw [toNumber?_hoisted])
  | string => exact congrArg some (onlyArg_bind_hoisted _ args fun v => by rw [display_hoisted])
  | _ => rfl

theorem chartName_hoisted (v : Value) : chartName v.hoisted = chartName v := by
  cases v <;> simp [chartName, typeName]

theorem writeLog_hoisted (console : Bool) (args : List Value) :
    writeLog console (args.map hoisted) = writeLog console args := by
  have line : Effects.logLine (args.map hoisted) = Effects.logLine args := by
    simp only [Effects.logLine, List.map_map, Function.comp_def, display_hoisted]
  have log : ∀ e : Effects, e.log (args.map hoisted) = e.log args := fun e => by
    simp only [Effects.log, line, List.map_map, Function.comp_def, toJson_hoisted]
  simp only [writeLog, line, log]

/-- **A built-in function does not look into functions.** -/
theorem call_hoisted (b : Builtin) (console : Bool) (args : List Value) :
    b.call console (args.map hoisted) = b.call console args := by
  cases b with
  | subscribe =>
    simp only [call, List.flatMap_map, attributeNames_hoisted]
  | announce => simp only [call, announcement_hoisted]
  | log => simp only [call, writeLog_hoisted]
  | chart =>
    simp only [call, onlyArg_bind_hoisted _ args chartName_hoisted]
  | _ => simp only [call, pure?_hoisted]

end Builtin

end SheetScript
