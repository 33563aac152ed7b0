import SheetScript.Program.Printer
import SheetScript.Run.Machine
import SheetScript.Value.Arithmetic
import SheetScript.Value.Index

/-!
# Running a program

Expressions and statements are run by recursion on their trees. What a call of a declared function
does is a parameter of that recursion (`Invoke`); `invokeAt` fills it in by recursion on the calls
that may still become active. So a run ends, whatever the program: the tree gets smaller within a
function, and a call inside a call has one level less.

A name means a built-in function, or else a global of the host, or else a variable. A block binds
the functions it declares when it is entered.

* `Expr.eval` and `Stmt.exec` run a piece of a program.
* `Program.exec` runs a program and gives its value: that of a `return` at the top level, or else of
  the last expression or assignment that was run anywhere.
* `Program.execEvent` runs a program and then calls one of its functions.
-/

namespace SheetScript

/-- What a statement does to the statements after it. -/
inductive Flow where
  | next
  /-- The call ends with a value. -/
  | leave (value : Value)
  deriving Inhabited

/-- What a call of a declared function does. -/
abbrev Invoke := Closure → List Value → Run Value

/-- Take the value of a step that may fail and changes nothing. -/
def Run.ofExcept {α : Type} (result : Except ScriptError α) : Run α :=
  MonadExcept.ofExcept result

/-- What the parts of a program need to run: the budgets, and what calls do. -/
structure Rules where
  limits : Limits
  invoke : Invoke

namespace Rules

/-- Call a value. `description` is how an error names it. -/
def callValue (rules : Rules) (callee : Value) (args : List Value) (description : String) :
    Run Value :=
  match callee with
  | .function f => rules.invoke f args
  | .builtin b => Machine.onWorld (b.call rules.limits.consoleLog args)
  | .native f => do
    match (← get).world.context.natives[f.place]? with
    | some native =>
      Machine.onWorld (World.onContext (Context.onEffects (native.call args)))
    | none => throw (.notCallable description)
  | _ => throw (.notCallable description)

/-- Call a method, or the function that a map has under the name. -/
def callMethod (rules : Rules) (receiver : Value) (name : String) (args : List Value) :
    Run Value :=
  let method : Run Value := Machine.onWorld (World.onContext (receiver.callMethod name args))
  match receiver with
  | .map entries =>
    match Entries.find? entries name with
    | some f => rules.callValue f args name
    | none => method
  | _ => method

end Rules

/-! ## Expressions -/

namespace Expr

/-- The value of a name. -/
def valueOf (chain : Chain) (name : String) : Run Value := do
  match Builtin.ofName? name with
  | some b => return .builtin b
  | none =>
    match Entries.find? (← get).world.context.globals name with
    | some value => return value
    | none =>
      match ← Machine.lookup? chain name with
      | some value => return value
      | none => throw (.undefinedVariable name)

/-- Whether a connective leaves its right operand alone. -/
def settles (op : Connective) (left : Value) : Bool :=
  match op with
  | .and => !left.truthy
  | .or => left.truthy

mutual

/-- The value of an expression. -/
def eval (rules : Rules) (chain : Chain) : Expr → Run Value
  | .number value => pure (.number value)
  | .string value => pure (.string value)
  | .bool value => pure (.bool value)
  | .null => pure .null
  | .variable name => valueOf chain name
  | .binary op left right => do
    let a ← eval rules chain left
    let b ← eval rules chain right
    Run.ofExcept (op.apply a b)
  | .logical op left right => do
    let a ← eval rules chain left
    if settles op a then pure a else eval rules chain right
  | .unary op operand => do
    let a ← eval rules chain operand
    Run.ofExcept (op.apply a)
  | .call (.property object name) args => do
    let receiver ← eval rules chain object
    let values ← evalAll rules chain args
    rules.callMethod receiver name values
  | .call callee args => do
    let f ← eval rules chain callee
    let values ← evalAll rules chain args
    rules.callValue f values callee.text
  | .property object name => do
    let receiver ← eval rules chain object
    Run.ofExcept (receiver.property (← get).world.context name)
  | .index object position => do
    let container ← eval rules chain object
    let place ← eval rules chain position
    Run.ofExcept (container.get place)
  | .array items => do
    return .array (← evalAll rules chain items)
  | .map entries => do
    return .map (Entries.ofList (← evalEntries rules chain entries))

/-- The values of several expressions, in order. -/
def evalAll (rules : Rules) (chain : Chain) : List Expr → Run (List Value)
  | [] => pure []
  | e :: rest => do
    let value ← eval rules chain e
    let values ← evalAll rules chain rest
    return value :: values

/-- The values of the entries of a map, in order. -/
def evalEntries (rules : Rules) (chain : Chain) :
    List (String × Expr) → Run (List (String × Value))
  | [] => pure []
  | (key, e) :: rest => do
    let value ← eval rules chain e
    let values ← evalEntries rules chain rest
    return (key, value) :: values

end

end Expr

/-! ## Assignments -/

namespace Target

/-- Fail if the name is a built-in function or a global of the host. -/
def checkFree (name : String) : Run Unit := do
  if (Builtin.ofName? name).isSome || (← get).world.context.hasGlobal name then
    throw (.type (.reservedName name))

/-- The value to store: the new one, or the old one combined with it. -/
def combine (op : Option Operator) (old : Except ScriptError Value) (value : Value) :
    Except ScriptError Value :=
  match op with
  | none => .ok value
  | some op => do op.apply (← old) value

/-- Store into a container at a position, and the changed container where it came from. The result
is the value stored. -/
def storeAt (rules : Rules) (chain : Chain) (op : Option Operator) (position value : Value) :
    Expr → Run Value
  | .variable name => do
    let container ← Expr.valueOf chain name
    let value ← Run.ofExcept (combine op (container.get position) value)
    let container ← Run.ofExcept (container.put position value)
    checkFree name
    Machine.assign chain name container
    return value
  | .index object outer => do
    let container ← (Expr.index object outer).eval rules chain
    let value ← Run.ofExcept (combine op (container.get position) value)
    let container ← Run.ofExcept (container.put position value)
    let outer ← outer.eval rules chain
    let _ ← storeAt rules chain none outer container object
    return value
  | object => do
    let container ← object.eval rules chain
    let value ← Run.ofExcept (combine op (container.get position) value)
    let _ ← Run.ofExcept (container.put position value)
    throw (.type (.notAssignable object.text))

/-- Assign to a target; the result is the value stored. -/
def store (rules : Rules) (chain : Chain) (op : Option Operator) (value : Value) :
    Target → Run Value
  | .variable name => do
    checkFree name
    let old? ← Machine.lookup? chain name
    let old := match old? with
      | some old => .ok old
      | none => .error (.undefinedVariable name)
    let value ← Run.ofExcept (combine op old value)
    Machine.assign chain name value
    return value
  | .index object position => do
    let position ← position.eval rules chain
    storeAt rules chain op position value object

end Target

/-! ## Loops -/

/-- What a loop goes over. -/
inductive Iteration where
  | items (values : List Value)
  /-- The numbers from `0` on, so many of them. -/
  | upTo (count : Nat)

namespace Iteration

/-- A loop over a number takes at most this many steps. -/
def greatestCount : Nat := Nat.pow 2 64 - 1

/-- What a loop over a value goes over. -/
def ofValue : Value → Except ScriptError Iteration
  | .number x => .ok (.upTo ((Number.Binary.ofFloat x).countUpTo greatestCount))
  | .array values => .ok (.items values)
  | .string s => .ok (.items (s.toList.map fun c => .string (String.singleton c)))
  | .map entries => .ok (.items ((Entries.keys entries).map .string))
  | v => .error (.type (.notIterable v.typeName))

/-- Run a step for each value until one leaves. -/
def forEach (step : Value → Run Flow) : List Value → Run Flow
  | [] => pure .next
  | v :: rest => do
    match ← step v with
    | .leave value => return .leave value
    | .next => forEach step rest

/-- Run a step for each number from `start` on, `count` of them, until one leaves. -/
def forCount (step : Value → Run Flow) (start : Nat) : Nat → Run Flow
  | 0 => pure .next
  | count + 1 => do
    match ← step (.number (Float.ofNat start)) with
    | .leave value => return .leave value
    | .next => forCount step (start + 1) count

/-- Run a step for everything the loop goes over, until one leaves. -/
def run (step : Value → Run Flow) : Iteration → Run Flow
  | items values => forEach step values
  | upTo count => forCount step 0 count

end Iteration

/-! ## Statements -/

namespace Stmt

/-- The functions that a block declares. -/
def functions (block : List Stmt) : List Function := block.filterMap function?

mutual

/-- Run a statement. -/
def exec (rules : Rules) (chain : Chain) : Stmt → Run Flow
  | .expression line value => Machine.atLine line do
    Machine.keepValue (← value.eval rules chain)
    return .next
  | .assign line target op value => Machine.atLine line do
    let value ← value.eval rules chain
    Machine.keepValue (← target.store rules chain op value)
    return .next
  | .choose line branches otherwise =>
    Machine.atLine line (execBranches rules chain (execOtherwise rules chain otherwise) branches)
  | .loop line name items body => Machine.atLine line do
    let iteration ← Run.ofExcept (Iteration.ofValue (← items.eval rules chain))
    iteration.run fun value => do
      Machine.startStep rules.limits
      Machine.assign chain name value
      Machine.declare chain (functions body)
      execAll rules chain body
  | .function line _ _ _ => Machine.atLine line (pure .next)
  | .leave line value => Machine.atLine line do
    match value with
    | some e => return .leave (← e.eval rules chain)
    | none => return .leave .null

/-- Run the block of the first condition that holds, or else the last step. -/
def execBranches (rules : Rules) (chain : Chain) (otherwise : Run Flow) :
    List (Expr × List Stmt) → Run Flow
  | [] => otherwise
  | (condition, body) :: rest => do
    if (← condition.eval rules chain).truthy then
      Machine.declare chain (functions body)
      execAll rules chain body
    else execBranches rules chain otherwise rest

/-- Run the block for when no condition holds, if there is one. -/
def execOtherwise (rules : Rules) (chain : Chain) : Option (List Stmt) → Run Flow
  | none => pure .next
  | some body => do
    Machine.declare chain (functions body)
    execAll rules chain body

/-- Run statements in order until one leaves. -/
def execAll (rules : Rules) (chain : Chain) : List Stmt → Run Flow
  | [] => pure .next
  | stmt :: rest => do
    match ← exec rules chain stmt with
    | .leave value => return .leave value
    | .next => execAll rules chain rest

end

/-- Run a block: bind the functions it declares, then run its statements. -/
def execBlock (rules : Rules) (chain : Chain) (block : List Stmt) : Run Flow := do
  Machine.declare chain (functions block)
  execAll rules chain block

end Stmt

/-! ## Calls -/

/-- Call a declared function, `depth` more calls being allowed to become active. -/
def invokeAt (limits : Limits) : Nat → Invoke
  | 0, f, args => do
    Run.ofExcept (checkArity f.decl.name args f.decl.params.length)
    throw (.stackOverflow limits.maxCallDepth)
  | depth + 1, f, args => do
    Run.ofExcept (checkArity f.decl.name args f.decl.params.length)
    let place ← Machine.newScope (f.decl.params.zip args)
    let flow ← Machine.inCall f.decl.name
      (Stmt.execBlock ⟨limits, invokeAt limits depth⟩ (place :: f.scopes) f.decl.body)
    match flow with
    | .leave value => return value
    | .next => return .null

/-- What the top level of a program needs to run. -/
def Rules.ofLimits (limits : Limits) : Rules := ⟨limits, invokeAt limits limits.maxCallDepth⟩

namespace Program

/-- The chain of the top level. -/
def topLevel : Chain := [0]

/-- Run a program; its value. -/
def exec (limits : Limits) (p : Program) : Run Value := do
  match ← Stmt.execBlock (Rules.ofLimits limits) topLevel p.statements with
  | .leave value => return value
  | .next => return (← get).lastValue

/-- Run a program, then call one of its functions. -/
def execEvent (limits : Limits) (p : Program) (name : String) (args : List Value) : Run Value := do
  let _ ← p.exec limits
  match ← Machine.lookup? topLevel name with
  | none => throw (.undefinedVariable name)
  | some callee =>
    match p.function? name with
    | some f => modify fun m => { m with line := f.line }
    | none => pure ()
    (Rules.ofLimits limits).callValue callee args name

end Program

end SheetScript
