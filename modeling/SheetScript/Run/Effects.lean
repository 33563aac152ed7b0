import SheetScript.Error
import SheetScript.Value.Basic

/-!
# What a run tells its host

Besides its value a run leaves announcements, log lines, signals for the host's worker and the ids
of the attributes it wrote. `Effects` collects them in the order in which they arise; an attribute
is listed once, where it was first written.

`Act σ` is the shape of everything that happens during a run: it works on a state and may fail, and
a failure keeps what was done to the state before it.
-/

namespace SheetScript

/-- A step on a state that may fail; the state survives the failure. -/
abbrev Act (σ : Type) := EStateM ScriptError σ

/-- A message of a script to the players. -/
structure Announcement where
  message : String
  id : Option String
  deriving DecidableEq, Repr, Inhabited

/-- A message of a run to the host's worker. -/
inductive Signal where
  | consoleLog (args : List Json)
  | announce (message : String) (id : Option String)
  deriving Inhabited

/-- What a run has told its host so far. -/
structure Effects where
  announcements : Array Announcement := #[]
  logs : Array String := #[]
  signals : Array Signal := #[]
  /-- The ids of the attributes written, in the order of the first writes. -/
  modified : List String := []
  deriving Inhabited

namespace Effects

/-- Note that an attribute was written. -/
def markModified (e : Effects) (id : String) : Effects :=
  if e.modified.contains id then e else { e with modified := e.modified ++ [id] }

/-- Announce a message. -/
def announce (e : Effects) (message : String) (id : Option String) : Effects :=
  { e with
    announcements := e.announcements.push ⟨message, id⟩
    signals := e.signals.push (.announce message id) }

/-- The line that values make in the log. -/
def logLine (args : List Value) : String := String.intercalate " " (args.map Value.display)

/-- Log values on one line. -/
def log (e : Effects) (args : List Value) : Effects :=
  { e with
    logs := e.logs.push (logLine args)
    signals := e.signals.push (.consoleLog (args.map Value.toJson)) }

end Effects

end SheetScript
