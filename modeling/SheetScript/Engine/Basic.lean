import SheetScript.Engine.Cache
import SheetScript.Engine.Config
import SheetScript.Run.Result

/-!
# The engine

An engine keeps what outlives a run: its options, the subscriptions of all scripts and the programs
they have been read as.

* `Engine.runSource` runs a source that belongs to no script.
* `Engine.runScript` runs a stored script; its subscriptions start anew.
* `Engine.runEvent` runs a stored script and then calls the function it has for an event. A function
  gets as many arguments as it has parameters: `null` for those that are missing, and none too many.

A disabled script does nothing. When the source of a script changes or is no program, the script's
subscriptions are dropped.
-/

namespace SheetScript

/-- What outlives a run. -/
structure Engine where
  config : Config
  subscriptions : Subscriptions := {}
  cache : Cache
  deriving Inhabited

namespace Engine

/-- An engine that has not done anything. -/
def new (config : Config) : Engine :=
  { config := config, cache := { capacity := config.cacheCapacity } }

/-- The result of a run, the context after it, and the engine after it. -/
abbrev Ran := RunResult × Context × Engine

/-- Drop the subscriptions of a script. -/
def clearSubscriptions (e : Engine) (id : String) : Engine :=
  { e with subscriptions := e.subscriptions.clear id }

/-- The program of a stored script. -/
def program? (e : Engine) (id source : String) : Except ScriptError Program × Engine :=
  match e.cache.fetch id source with
  | (.error err, cache) => (.error err, { e with cache := cache }.clearSubscriptions id)
  | (.ok (p, .replaced), cache) => (.ok p.program, { e with cache := cache }.clearSubscriptions id)
  | (.ok (p, _), cache) => (.ok p.program, { e with cache := cache })

/-- Run something in a context, with the subscriptions of the engine. -/
def inWorld (e : Engine) (c : Context) (act : World → RunResult × World) : Ran :=
  let (result, world) := act ⟨c, e.subscriptions⟩
  (result, world.context, { e with subscriptions := world.subscriptions })

/-- Run a program in a context. -/
def run (e : Engine) (p : Program) (c : Context) : Ran := e.inWorld c (p.run e.config.limits)

/-- The result for a source that is no program. -/
def rejected (err : ScriptError) : RunResult := .failed (.ofParseError err)

/-- Run a source that belongs to no script. -/
def runSource (e : Engine) (source : String) (c : Context) : Ran :=
  match Program.ofSource? source with
  | .ok p => e.run p c
  | .error err => (rejected err, c, e)

/-- Run a stored script. -/
def runScript (e : Engine) (script : Script) (c : Context) : Ran :=
  if !script.enabled then ({}, c, e)
  else
    let c := c.orScript script.id
    match e.program? script.id script.source with
    | (.error err, e) => (rejected err, c, e)
    | (.ok p, e) => (e.clearSubscriptions script.id).run p c

/-- As many arguments as a function has parameters. -/
def fitArgs (count : Nat) (args : List Value) : List Value :=
  args.take count ++ List.replicate (count - args.length) .null

/-- Run a program, then call the function it has for an event. Without one nothing is run. -/
def handle (e : Engine) (p : Program) (event : String) (args : List Value) (c : Context) : Ran :=
  match p.function? event with
  | none => ({}, c, e)
  | some f => e.inWorld c (p.runEvent e.config.limits event (fitArgs f.params.length args))

/-- Run a stored script, then call the function it has for an event. -/
def runEvent (e : Engine) (script : Script) (event : String) (args : List Value) (c : Context) :
    Ran :=
  if !script.enabled then ({}, c, e)
  else
    let c := c.orScript script.id
    match e.program? script.id script.source with
    | (.error err, e) => (rejected err, c, e)
    | (.ok p, e) => e.handle p event args c

/-- Forget all about a script. -/
def forget (e : Engine) (id : String) : Engine :=
  { e with cache := e.cache.invalidate id }.clearSubscriptions id

end Engine

end SheetScript
