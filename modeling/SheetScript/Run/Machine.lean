import SheetScript.Run.Builtin
import SheetScript.Run.Scope

/-!
# The state of a run

What a run carries along: its world, its variables, the calls that are active, the line it is at,
the loop steps started, the value of the last expression, and where it first failed.

* `Machine.inCall` works one call deeper and comes back to where the call was, whatever happens.
* `Machine.atLine` notes the line of a statement, and the place of a failure that no statement
  further in has noted.
* `Machine.trace` is the list of active calls, each with the line that it is at.
-/

namespace SheetScript

/-- The budgets of a run. -/
structure Limits where
  /-- How many calls may be active at once. -/
  maxCallDepth : Nat := 128
  /-- How many loop steps may be started. -/
  maxLoopIterations : Nat := 1000000
  /-- Whether `log` writes to the console too. -/
  consoleLog : Bool := true
  deriving DecidableEq, Repr, Inhabited

/-- An active call: the function and the line of the caller. -/
structure CallFrame where
  name : String
  callLine : Nat
  deriving DecidableEq, Repr, Inhabited

/-- The state of a run. -/
structure Machine where
  world : World
  /-- The scope of the program is the first one. -/
  scopes : Scopes := #[[]]
  /-- The active calls, the innermost first. -/
  frames : List CallFrame := []
  line : Nat := 0
  iterations : Nat := 0
  /-- How many blocks with functions of their own have been entered. -/
  entries : Nat := 0
  lastValue : Value := .null
  /-- The line and the trace of the first failure. -/
  failure : Option (Nat × List String) := none
  deriving Inhabited

/-- A step of a run. -/
abbrev Run := Act Machine

namespace Machine

/-- Work on the world. -/
def onWorld {α : Type} (act : Act World α) : Run α :=
  Act.on Machine.world (fun m w => { m with world := w }) act

/-- An entry of a trace. -/
def traceEntry (name : String) (line : Nat) : String :=
  "at " ++ name ++ " (line " ++ Number.integerText line ++ ")"

/-- The active calls and at last the script, each with the line that it is at; the innermost one is
at the given line. -/
def trace (frames : List CallFrame) (line : Nat) : List String :=
  match frames with
  | [] => [traceEntry "<script>" line]
  | frame :: rest => traceEntry frame.name line :: trace rest frame.callLine

/-- Note where a failure arose, unless that has been noted. -/
def noteFailure (m : Machine) (line : Nat) : Machine :=
  match m.failure with
  | some _ => m
  | none => { m with failure := some (line, trace m.frames line) }

/-- Run a statement of a line. -/
def atLine {α : Type} (line : Nat) (act : Run α) : Run α := fun m =>
  match act { m with line := line } with
  | .ok a m => .ok a m
  | .error e m => .error e (m.noteFailure line)

/-- Work inside a call of a function, then return to the caller. -/
def inCall {α : Type} (name : String) (act : Run α) : Run α := fun m =>
  let callLine := m.line
  let back (m : Machine) : Machine := { m with frames := m.frames.drop 1, line := callLine }
  match act { m with frames := ⟨name, callLine⟩ :: m.frames } with
  | .ok a m => .ok a (back m)
  | .error e m => .error e (back m)

/-- The value that a chain binds to a name. -/
def lookup? (chain : Chain) (name : String) : Run (Option Value) := do
  return (← get).scopes.lookup? chain name

/-- Assign to a name. -/
def assign (chain : Chain) (name : String) (value : Value) : Run Unit :=
  modify fun m => { m with scopes := m.scopes.assign chain name value }

/-- Make a scope with the given bindings; its place. -/
def newScope (bindings : List (String × Value)) : Run Nat := fun m =>
  .ok m.scopes.size { m with scopes := m.scopes.push (Entries.ofList bindings) }

/-- Bind functions in the innermost scope of a chain. -/
def declare (chain : Chain) (functions : List Function) : Run Unit :=
  if functions.isEmpty then pure ()
  else modify fun m =>
    let bind (scopes : Scopes) (f : Function) : Scopes :=
      scopes.define (chain.head?.getD 0) f.name (.function ⟨m.entries, f, chain⟩)
    { m with scopes := functions.foldl bind m.scopes, entries := m.entries + 1 }

/-- Start a loop step, if the budget allows one more. -/
def startStep (limits : Limits) : Run Unit := fun m =>
  if m.iterations < limits.maxLoopIterations then
    .ok () { m with iterations := m.iterations + 1 }
  else .error (.iterationLimit limits.maxLoopIterations) m

/-- Keep the value of an expression or assignment. -/
def keepValue (value : Value) : Run Unit := modify fun m => { m with lastValue := value }

end Machine

end SheetScript
