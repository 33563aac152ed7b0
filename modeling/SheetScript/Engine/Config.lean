import SheetScript.Number.Notation
import SheetScript.Run.Machine
import SheetScript.Text.Blank

/-!
# Options

The options of an engine, and the text form they are kept in: lines `key = value`, blank lines, and
lines that start with `#`. Keys are read without regard to case; of several lines with one key the
last one counts, and an unknown key is passed over. A value that is none of its option gives the
default.

* `Config.parse` reads a text. It fails at the first line without `=`, and when no call at all would
  be allowed.
* `Config.summary` shows the options.
-/

namespace SheetScript

/-- The options of an engine. -/
structure Config where
  /-- How many calls of a run may be active at once. -/
  maxCallDepth : Nat := 128
  /-- How many loop steps a run may start. -/
  maxLoopIterations : Nat := 1000000
  /-- How many programs the cache holds; any number if `0`. -/
  cacheCapacity : Nat := 512
  /-- How many scripts one cascade may run. -/
  maxCascadeRuns : Nat := 256
  logLevel : String := "info"
  /-- Whether `log` writes to the console too. -/
  consoleLog : Bool := true
  deriving DecidableEq, Repr, Inhabited

/-- Why the options cannot be read. -/
inductive ConfigError where
  /-- A line, counted from 1, that is no option. -/
  | notAnOption (line : Nat) (text : String)
  /-- No call is allowed. -/
  | noCalls
  deriving DecidableEq, Repr, Inhabited

/-- The wording of an error. -/
def ConfigError.message : ConfigError → String
  | notAnOption line text =>
    "line " ++ Number.integerText line ++ ": expected key = value, got '" ++ text ++ "'"
  | noCalls => "maxcalldepth must be at least 1"

namespace Config

/-- The budgets of a run. -/
def limits (c : Config) : Limits where
  maxCallDepth := c.maxCallDepth
  maxLoopIterations := c.maxLoopIterations
  consoleLog := c.consoleLog

/-- A natural number that 64 bits hold, perhaps with a plus in front. -/
def natural? (text : String) : Option Nat :=
  let digits := match text.toList with
    | '+' :: rest => rest
    | cs => cs
  if digits.isEmpty || !digits.all Text.isDecimalDigit then none
  else
    let n := Number.digitsValue digits
    if n < Nat.pow 2 64 then some n else none

/-- A truth value. -/
def flag? (text : String) : Option Bool :=
  if text == "true" then some true else if text == "false" then some false else none

/-- The options with one of them set. The key is in lower case. -/
def set (c : Config) (key value : String) : Config :=
  if key == "maxcalldepth" then { c with maxCallDepth := (natural? value).getD 128 }
  else if key == "maxloopiterations" then
    { c with maxLoopIterations := (natural? value).getD 1000000 }
  else if key == "astcachecapacity" then { c with cacheCapacity := (natural? value).getD 512 }
  else if key == "maxcascadepasses" then { c with maxCascadeRuns := (natural? value).getD 256 }
  else if key == "loglevel" then { c with logLevel := value }
  else if key == "consolelog" then { c with consoleLog := (flag? value).getD true }
  else c

/-- What a line is. -/
inductive Line where
  /-- A blank line or a comment. -/
  | idle
  | entry (key value : String)
  /-- Anything else, without the blanks around it. -/
  | other (text : String)
  deriving DecidableEq, Repr, Inhabited

/-- Read a line. -/
def Line.ofString (line : String) : Line :=
  let cs := Text.trim line.toList
  if cs.isEmpty || cs.head? == some '#' then idle
  else
    let (key, rest) := cs.span (· != '=')
    if rest.isEmpty then other (String.ofList cs)
    else
      entry (String.ofList ((Text.trim key).map Char.toLower))
        (String.ofList (Text.trim (rest.drop 1)))

/-- Read lines from the one of that number on. -/
def parseFrom (c : Config) (number : Nat) : List String → Except ConfigError Config
  | [] => .ok c
  | line :: rest =>
    match Line.ofString line with
    | .idle => parseFrom c (number + 1) rest
    | .entry key value => parseFrom (c.set key value) (number + 1) rest
    | .other text => .error (.notAnOption number text)

/-- Read a text. -/
def parse (text : String) : Except ConfigError Config := do
  let c ← parseFrom {} 1 (Text.lines text)
  if c.maxCallDepth == 0 then throw .noCalls
  return c

/-- The options, one on a line. -/
def summary (c : Config) : List String :=
  let number (n : Nat) : String := Number.integerText n
  ["Engine configuration:",
    "    Max call depth: " ++ number c.maxCallDepth,
    "    Max loop iterations: " ++ number c.maxLoopIterations,
    "    AST cache capacity: " ++ number c.cacheCapacity,
    "    Max cascade passes: " ++ number c.maxCascadeRuns,
    "    Log level: " ++ c.logLevel,
    "    Console log: " ++ (if c.consoleLog then "true" else "false")]

end Config

end SheetScript
