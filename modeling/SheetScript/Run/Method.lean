import SheetScript.Run.Context

/-!
# Methods and properties

What `receiver.name(args)` and `receiver.name` mean for the values that have methods: arrays,
charts, rows, and the objects of the host. The character that a run is for and the handles on its
attributes are among those objects.

* `Value.callMethod` calls a method.
* `Value.property` reads a property.

A method that the receiver does not have is an error, and so is a wrong number of arguments.
-/

namespace SheetScript

/-- Fail unless there are so many arguments. -/
def checkArity (name : String) (args : List Value) (expected : Nat) : Except ScriptError Unit :=
  if args.length == expected then .ok () else .error (.arity name expected args.length)

/-- The number that an argument is. -/
def numberArg (name : String) (arg : Value) : Except ScriptError Float :=
  match arg.asNumber? with
  | some x => .ok x
  | none => .error (.type (.notANumber name arg.typeName))

/-- The only argument. -/
def onlyArg (name : String) (args : List Value) : Except ScriptError Value :=
  match args with
  | [arg] => .ok arg
  | _ => .error (.arity name 1 args.length)

/-- The two arguments. -/
def twoArgs (name : String) (args : List Value) : Except ScriptError (Value × Value) :=
  match args with
  | [first, second] => .ok (first, second)
  | _ => .error (.arity name 2 args.length)

namespace ArrayMethod

/-- The values that `filterEmpty` drops: `null`, the empty text and the text `null`. -/
def isEmptyValue : Value → Bool
  | .null => true
  | .string s => s == "" || s == "null"
  | _ => false

/-- An element drawn at random; without elements nothing is drawn. -/
def drawItem : List Value → Act Context Value
  | [] => return .null
  | item :: rest => return (item :: rest).get (← Context.draw rest.length)

/-- Call a method of an array. -/
def call (m : ArrayMethod) (items : List Value) (args : List Value) : Act Context Value := do
  MonadExcept.ofExcept (checkArity m.name args 0)
  match m with
  | count => return .number (Float.ofNat items.length)
  | first => return items.head?.getD .null
  | last => return items.getLast?.getD .null
  | random => drawItem items
  | filter => return .array (items.filter Value.truthy)
  | filterEmpty => return .array (items.filter fun v => !isEmptyValue v)

end ArrayMethod

/-- Call a method of a chart. -/
def ChartMethod.call (m : ChartMethod) (t : Table) (args : List Value) : Act Context Value := do
  match m with
  | get =>
    let header ← MonadExcept.ofExcept (onlyArg m.name args)
    return .array (← MonadExcept.ofExcept (t.column header.display))
  | rowWhere =>
    let (header, value) ← MonadExcept.ofExcept (twoArgs m.name args)
    return .row (t.rowWhere (← Context.newIdentity) header.display value)

/-- Call a method of a row. -/
def RowMethod.call (m : RowMethod) (r : Row) (args : List Value) : Except ScriptError Value := do
  match m with
  | valueInColumn => return r.valueIn (← onlyArg m.name args).display
  | count =>
    checkArity m.name args 0
    return .number (Float.ofNat r.count)

namespace ObjectRef

/-- The object has no such method or property. -/
def unknown (o : ObjectRef) (name : String) : ScriptError := .unknownMethod o.typeName name

/-- Call a method of the character. -/
def callOwner (name : String) (args : List Value) : Act Context Value := do
  let sheet := ((← get).desk.map (·.sheet)).getD default
  if name == "Attribute" then
    let wanted := (← MonadExcept.ofExcept (onlyArg name args)).display
    match sheet.byName? wanted with
    | none => throw (.host (.noAttribute wanted))
    | some a => return .object (.handle (← Context.newIdentity) a.id a.name)
  else if name == "hasItem" then
    let wanted := (← MonadExcept.ofExcept (onlyArg name args)).display
    return .bool (sheet.hasItem wanted)
  else throw (unknown owner name)

/-- The value of an attribute as the run sees it. -/
def current (c : Context) (id : String) : Value :=
  match c.desk.bind (·.read? id) with
  | some json => Value.ofJson json
  | none => .null

/-- Write an attribute. -/
def write (id : String) (value : Value) : Act Context Unit :=
  modify fun c =>
    { c with
      desk := c.desk.map (·.write id value.toJson)
      effects := c.effects.markModified id }

/-- Write the value of an attribute combined with a number. -/
def adjust (method id name : String) (combine : Float → Float → Float) (args : List Value) :
    Act Context Value := do
  let arg ← MonadExcept.ofExcept (onlyArg method args)
  let amount ← MonadExcept.ofExcept (numberArg method arg)
  let value := current (← get) id
  match value.toNumber? with
  | none => throw (.type (.notNumeric name value.display))
  | some x =>
    let next := Value.number (combine x amount)
    write id next
    return next

/-- Call a method of a handle on an attribute. -/
def callHandle (id name method : String) (args : List Value) : Act Context Value := do
  if method == "set" then
    let value ← MonadExcept.ofExcept (onlyArg method args)
    write id value
    return value
  else if method == "add" then adjust method id name (· + ·) args
  else if method == "subtract" then adjust method id name (· - ·) args
  else if method == "value" then
    MonadExcept.ofExcept (checkArity method args 0)
    return current (← get) id
  else throw (.unknownMethod "Attribute" method)

/-- Call a method of an object. -/
def call (o : ObjectRef) (name : String) (args : List Value) : Act Context Value := do
  match o with
  | owner => callOwner name args
  | handle _ id attrName => callHandle id attrName name args
  | custom place _ =>
    match (← get).objects[place]? with
    | some object => Context.onEffects (object.call name args)
    | none => throw (o.unknown name)

/-- Read a property of an object. -/
def property (o : ObjectRef) (c : Context) (name : String) : Except ScriptError Value :=
  match o with
  | owner => .error (o.unknown name)
  | handle _ id attrName =>
    if name == "value" then .ok (current c id)
    else if name == "name" then .ok (.string attrName)
    else if name == "id" then .ok (.string id)
    else .error (o.unknown name)
  | custom place _ =>
    match c.objects[place]? with
    | some object => object.property name
    | none => .error (o.unknown name)

end ObjectRef

namespace Value

/-- The value has no such method or property. -/
def unknown (v : Value) (name : String) : ScriptError := .unknownMethod v.typeName name

/-- Call a method of a value. -/
def callMethod (receiver : Value) (name : String) (args : List Value) : Act Context Value :=
  match receiver with
  | array items =>
    match ArrayMethod.ofName? name with
    | some m => m.call items args
    | none => throw (receiver.unknown name)
  | chart t =>
    match ChartMethod.ofName? name with
    | some m => m.call t args
    | none => throw (receiver.unknown name)
  | row r =>
    match RowMethod.ofName? name with
    | some m => MonadExcept.ofExcept (m.call r args)
    | none => throw (receiver.unknown name)
  | object o => o.call name args
  | _ => throw (receiver.unknown name)

/-- Read a property of a value. A key that a map lacks gives `null`. -/
def property (receiver : Value) (c : Context) (name : String) : Except ScriptError Value :=
  match receiver with
  | map entries => .ok ((Entries.find? entries name).getD null)
  | object o => o.property c name
  | chart t => if name == "name" then .ok (string t.name) else .error (receiver.unknown name)
  | _ => .error (receiver.unknown name)

end Value

end SheetScript
