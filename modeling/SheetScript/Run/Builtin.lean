import SheetScript.Run.Method

/-!
# Calling the built-in functions

`Builtin.call` is what a built-in function does with its arguments. Most give a number or a text;
`log` and `announce` tell the host something, `subscribe` writes to the registry of subscriptions,
and `Chart` reads a chart of the context.
-/

namespace SheetScript

/-- What a run works on besides its own variables. -/
structure World where
  context : Context
  subscriptions : Subscriptions
  deriving Inhabited

namespace World

/-- Work on the context. -/
def onContext {α : Type} (act : Act Context α) : Act World α :=
  Act.on World.context (fun w c => { w with context := c }) act

end World

namespace Builtin

/-- The attributes that an argument of `subscribe` names. -/
def attributeNames : Value → List String
  | .array items => items.map Value.display
  | v => [v.display]

/-- Subscribe to attributes: for the script of the context, or else for the current one. -/
def subscribeTo (names : List String) : Act World Unit := do
  let w ← get
  match w.context.scriptId with
  | some script => set { w with subscriptions := w.subscriptions.registerFor script names }
  | none =>
    let subscriptions ← MonadExcept.ofExcept (w.subscriptions.register names)
    set { w with subscriptions := subscriptions }

/-- Log values, on the console too if it is on. -/
def writeLog (console : Bool) (args : List Value) : Act Context Unit :=
  modify fun c =>
    let c := { c with effects := c.effects.log args }
    if console then { c with console := c.console.push (Effects.logLine args) } else c

/-- The message and the id of an announcement; an id of `null` is none. -/
def announcement (args : List Value) : Except ScriptError (String × Option String) :=
  match args with
  | [] => .error (.arity announce.name 1 0)
  | [message] => .ok (message.display, none)
  | [message, .null] => .ok (message.display, none)
  | [message, id] => .ok (message.display, some id.display)
  | _ => .error (.arity announce.name 2 args.length)

/-- A function of one number. -/
def unaryMath (b : Builtin) (f : Float → Float) (args : List Value) : Except ScriptError Value := do
  return .number (f (← numberArg b.name (← onlyArg b.name args)))

/-- The smaller number; what is no number does not count, and of the two zeros the last one wins. -/
def smaller (a b : Float) : Float := if a.isNaN || b ≤ a then b else a

/-- The larger number; what is no number does not count, and of the two zeros the last one wins. -/
def larger (a b : Float) : Float := if a.isNaN || a ≤ b then b else a

/-- A choice among the arguments, or among the items of the only one. -/
def choice (b : Builtin) (f : Float → Float → Float) (args : List Value) :
    Except ScriptError Value := do
  let values := match args with
    | [.array items] => items
    | _ => args
  if args.isEmpty then throw (.arity b.name 1 0)
  match values with
  | [] => return .null
  | first :: rest =>
    let start ← numberArg b.name first
    let result ← rest.foldlM (fun x v => (numberArg b.name v).map (f x)) start
    return .number result

/-- The half rounds up. -/
def roundHalfUp (x : Float) : Float := (x + 0.5).floor

/-- Call a function that only looks at its arguments; none for the others. -/
def pure? (b : Builtin) (args : List Value) : Option (Except ScriptError Value) :=
  match b with
  | floor => some (b.unaryMath Float.floor args)
  | ceil => some (b.unaryMath Float.ceil args)
  | round => some (b.unaryMath roundHalfUp args)
  | abs => some (b.unaryMath Float.abs args)
  | sqrt => some (b.unaryMath Float.sqrt args)
  | .min => some (b.choice smaller args)
  | .max => some (b.choice larger args)
  | pow => some do
    let (base, exponent) ← twoArgs b.name args
    return .number ((← numberArg b.name base).pow (← numberArg b.name exponent))
  | number => some do
    return .number ((← onlyArg b.name args).toNumber?.getD (0.0 / 0.0))
  | string => some do
    return .string (← onlyArg b.name args).display
  | _ => none

/-- The chart name that an argument of `Chart` is. -/
def chartName : Value → Except ScriptError String
  | .string s => .ok s
  | v => .error (.type (.notAChartName v.typeName))

/-- Call a built-in function. `console` says whether log lines go to the console too. -/
def call (b : Builtin) (console : Bool) (args : List Value) : Act World Value := do
  match b with
  | subscribe =>
    subscribeTo (args.flatMap attributeNames)
    return .null
  | announce =>
    let (message, id) ← MonadExcept.ofExcept (announcement args)
    World.onContext (modify fun c => { c with effects := c.effects.announce message id })
    return .null
  | log =>
    World.onContext (writeLog console args)
    return .null
  | chart =>
    let name ← MonadExcept.ofExcept (do chartName (← onlyArg b.name args))
    return .chart (← World.onContext (Context.table name))
  | b => MonadExcept.ofExcept ((b.pure? args).getD (.ok .null))

end Builtin

end SheetScript
