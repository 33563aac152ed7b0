import SheetScript.Engine.Error
import SheetScript.Host.Runner
import SheetScript.Json.Reader

/-!
# The command line

A call `SCRIPT [--chart NAME=FILE]... [--config FILE] [--event NAME] [--arg JSON]...` runs a script
file and prints the result.

* `Command.ofArgs?` reads the arguments. Nothing means that they are no proper call.
* `Command.answer` does what they ask for, given a way to read files. The options are read before
  the script, and the script before the charts; the first file that cannot be read ends it.

A value may follow its option or an equals sign. Charts and arguments may be given several times,
the other options once. After `--` everything is a script name.
-/

namespace SheetScript

/-- How a script file is run. -/
structure RunOptions where
  script : String
  /-- Names of charts and the files they are in. -/
  charts : List (String × String) := []
  config : Option String := none
  event : Option String := none
  args : List Json := []
  deriving Inhabited

/-- What the arguments ask for. -/
inductive Command where
  | run (options : RunOptions)
  | version
  | help
  deriving Inhabited

/-- The arguments read so far. -/
structure PartialOptions where
  script : Option String := none
  charts : List (String × String) := []
  config : Option String := none
  event : Option String := none
  args : List Json := []
  deriving Inhabited

namespace PartialOptions

/-- The options, once the script is known. -/
def command? (o : PartialOptions) : Option Command :=
  o.script.map fun script => .run ⟨script, o.charts, o.config, o.event, o.args⟩

/-- The name and the file of a chart, around the first equals sign. -/
def chart? (text : String) : Option (String × String) :=
  let (name, rest) := text.toList.span (· != '=')
  let file := rest.drop 1
  if name.isEmpty || file.isEmpty then none else some (String.ofList name, String.ofList file)

/-- Take the script; there is one, and its name is not empty. -/
def setScript? (o : PartialOptions) (path : String) : Option PartialOptions :=
  if o.script.isSome || path.isEmpty then none else some { o with script := some path }

/-- Take the value of an option. -/
def set? (o : PartialOptions) (name value : String) : Option PartialOptions :=
  if name == "chart" then
    (chart? value).map fun chart => { o with charts := o.charts ++ [chart] }
  else if name == "arg" then
    (Json.read? value).map fun json => { o with args := o.args ++ [json] }
  else if name == "event" then
    if o.event.isSome then none else some { o with event := some value }
  else if name == "config" then
    if o.config.isSome || value.isEmpty then none else some { o with config := some value }
  else none

end PartialOptions

namespace Command

/-- Whether an argument is an option and no value. -/
def isOption (arg : String) : Bool := arg.startsWith "-" && arg != "-"

/-- Read one-letter options, of which the first decides. -/
def ofLetters? : List Char → Option Command
  | 'V' :: _ => some .version
  | 'h' :: _ => some .help
  | _ => none

/-- Read what follows `--`. -/
def ofPaths? (o : PartialOptions) : List String → Option Command
  | [] => o.command?
  | path :: rest => (o.setScript? path).bind (ofPaths? · rest)

/-- Read the arguments after those read so far. -/
def ofArgsFrom? (o : PartialOptions) : List String → Option Command
  | [] => o.command?
  | arg :: rest =>
    if arg == "--" then ofPaths? o rest
    else if arg.startsWith "--" then
      let (name, value) := (arg.toList.drop 2).span (· != '=')
      let name := String.ofList name
      match value with
      | _ :: value => (o.set? name (String.ofList value)).bind (ofArgsFrom? · rest)
      | [] =>
        if name == "version" then some .version
        else if name == "help" then some .help
        else
          match rest with
          | [] => none
          | value :: rest =>
            if isOption value then none else (o.set? name value).bind (ofArgsFrom? · rest)
    else if isOption arg then ofLetters? (arg.toList.drop 1)
    else (o.setScript? arg).bind (ofArgsFrom? · rest)

/-- Read the arguments. -/
def ofArgs? (args : List String) : Option Command := ofArgsFrom? {} args

end Command

/-- A file that cannot be used, with the reason. -/
inductive FileFailure where
  | config (path cause : String)
  | script (path cause : String)
  | chart (name path cause : String)
  deriving DecidableEq, Repr, Inhabited

namespace FileFailure

/-- What could not be done. -/
def summary : FileFailure → String
  | config path _ => "failed to load config " ++ path
  | script path _ => "failed to read script " ++ path
  | chart name path _ => "failed to read chart '" ++ name ++ "' from " ++ path

/-- The reason. -/
def cause : FileFailure → String
  | config _ cause => cause
  | script _ cause => cause
  | chart _ _ cause => cause

end FileFailure

/-- What the program answers. -/
inductive CommandAnswer where
  /-- The result of the script. -/
  | result (reply : RunReply)
  | fileFailure (f : FileFailure)
  /-- The arguments are no proper call. -/
  | usage
  | version
  | help
  deriving Inhabited

/-- The exit code of the program. -/
def CommandAnswer.exitCode : CommandAnswer → UInt32
  | result reply => if reply.error.isSome then 1 else 0
  | fileFailure _ => 1
  | usage => 2
  | version => 0
  | help => 0

namespace Command

variable {m : Type → Type} [Monad m]

/-- The version of the program. -/
def versionText : String := "qbscript 0.1.0"

/-- The ruleset of everything that the command line loads. -/
def rulesetId : String := "cli"

/-- Where options are looked for when none are named. -/
def defaultConfigPath : String := "config/qbscript.txt"

/-- A way to read files: the text, or why there is none. -/
abbrev ReadFile (m : Type → Type) := String → m (Except String String)

/-- Read options from a file. -/
def loadConfig (read : ReadFile m) (path : String) : m (Except EngineError Config) := do
  match ← read path with
  | .error cause => return .error (.io cause)
  | .ok text => return (Config.parse text).mapError EngineError.ofConfigError

/-- The options for a run; without a file named, those at the usual place if they can be read. -/
def chooseConfig (read : ReadFile m) (path : Option String) : m (Except FileFailure Config) := do
  match path with
  | some path =>
    return (← loadConfig read path).mapError fun e => .config path e.message
  | none =>
    match ← loadConfig read defaultConfigPath with
    | .ok config => return .ok config
    | .error _ => return .ok {}

/-- Read charts; the first of them has this number. -/
def loadCharts (read : ReadFile m) (number : Nat) :
    List (String × String) → m (Except FileFailure (List Chart))
  | [] => return .ok []
  | (name, path) :: rest => do
    match ← read path with
    | .error cause => return .error (.chart name path cause)
    | .ok data =>
      let chart : Chart := ⟨"chart-" ++ Number.integerText number, rulesetId, name, data⟩
      return (← loadCharts read (number + 1) rest).map (chart :: ·)

/-- Run a script with options and charts. -/
def runScript (o : RunOptions) (config : Config) (source : String) (charts : List Chart) :
    RunReply :=
  let request : RunRequest :=
    { script := Script.new o.script rulesetId .global none source
      event := o.event
      characterId := none
      args := o.args
      charts := charts }
  ((Runner.new (Engine.new config)).run request).1

/-- Run a script file. -/
def runFile (read : ReadFile m) (o : RunOptions) : m CommandAnswer := do
  match ← chooseConfig read o.config with
  | .error f => return .fileFailure f
  | .ok config =>
    match ← read o.script with
    | .error cause => return .fileFailure (.script o.script cause)
    | .ok source =>
      match ← loadCharts read 1 o.charts with
      | .error f => return .fileFailure f
      | .ok charts => return .result (runScript o config source charts)

/-- Do what the arguments ask for. -/
def answer (read : ReadFile m) (args : List String) : m CommandAnswer := do
  match ofArgs? args with
  | none => return .usage
  | some .version => return .version
  | some .help => return .help
  | some (.run o) => runFile read o

end Command

end SheetScript
