import SheetScript.Run.Interpreter

/-!
# The result of a run

A run that fails has no value, but what it told its host before the failure stays. `Program.run` and
`Program.runEvent` run a program in a world and give the result with the world as the run leaves it;
the effects are in the result and no longer in the context.
-/

namespace SheetScript

/-- Why and where a run failed. -/
structure Failure where
  error : ScriptError
  /-- The line of the statement that failed; for a source that is no program, of the token. -/
  line : Option Nat
  /-- The active calls, the innermost first. -/
  trace : List String
  deriving DecidableEq, Repr, Inhabited

/-- The failure of a source that is no program. -/
def Failure.ofParseError (e : ScriptError) : Failure :=
  match e with
  | .parse _ line _ => ⟨e, some line, []⟩
  | _ => ⟨e, none, []⟩

/-- What a run gives back. -/
structure RunResult where
  value : Value := .null
  effects : Effects := {}
  failure : Option Failure := none
  deriving Inhabited

namespace RunResult

/-- The result of a run that could not start. -/
def failed (f : Failure) : RunResult := { failure := some f }

/-- Whether the run reached its end. -/
def ok (r : RunResult) : Bool := r.failure.isNone

end RunResult

/-- Where a run failed. -/
def Machine.failureOf (m : Machine) (e : ScriptError) : Failure :=
  match m.failure with
  | some (line, trace) => ⟨e, some line, trace⟩
  | none => ⟨e, none, []⟩

/-- The result of a step that ended in a state, and the world that it leaves. -/
def Machine.finish (outcome : Except ScriptError Value) (m : Machine) : RunResult × World :=
  let (effects, context) := m.world.context.takeEffects
  let world := { m.world with context := context }
  match outcome with
  | .ok value => ({ value := value, effects := effects }, world)
  | .error e => ({ effects := effects, failure := some (m.failureOf e) }, world)

/-- Run a step from the start. -/
def Run.start (act : Run Value) (world : World) : RunResult × World :=
  match act { world := world } with
  | .ok value m => m.finish (.ok value)
  | .error e m => m.finish (.error e)

namespace Program

/-- Run a program in a world. -/
def run (p : Program) (limits : Limits) (world : World) : RunResult × World :=
  Run.start (p.exec limits) world

/-- Run a program in a world, then call one of its functions. -/
def runEvent (p : Program) (limits : Limits) (name : String) (args : List Value)
    (world : World) : RunResult × World :=
  Run.start (p.execEvent limits name args) world

end Program

end SheetScript
