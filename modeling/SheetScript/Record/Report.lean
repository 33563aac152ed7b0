import SheetScript.Entries
import SheetScript.Number.Notation

/-!
# Reports of failures

An `ErrorReport` is what the host keeps of a failed run. Its id comes from an `IdSource`, which
counts for each stem on its own: `script-error-1`, `script-error-2` and so on.
-/

namespace SheetScript

/-- The counters of the ids handed out. -/
structure IdSource where
  /-- How many ids each stem has. -/
  counters : Entries Nat := []
  /-- How many ids there are. -/
  issued : Nat := 0
  deriving DecidableEq, Repr, Inhabited

namespace IdSource

/-- How many ids a stem has. -/
def count (s : IdSource) (stem : String) : Nat := (Entries.find? s.counters stem).getD 0

/-- The id of a stem and a number. -/
def idText (stem : String) (n : Nat) : String := stem ++ "-" ++ Number.integerText n

/-- Hand out the next id of a stem. -/
def next (s : IdSource) (stem : String) : String × IdSource :=
  let n := s.count stem + 1
  (idText stem n, { counters := Entries.insert s.counters stem n, issued := s.issued + 1 })

end IdSource

/-- What the host keeps of a failed run. -/
structure ErrorReport where
  id : String
  scriptId : String
  characterId : Option String
  message : String
  line : Option Nat
  /-- The active calls, one on a line. -/
  trace : Option String
  deriving DecidableEq, Repr, Inhabited

namespace ErrorReport

/-- The stem of the ids of reports. -/
def stem : String := "script-error"

/-- The calls of a trace, one on a line. -/
def traceText (trace : List String) : Option String :=
  if trace.isEmpty then none else some (String.intercalate "\n" trace)

/-- Report a failure. -/
def new (ids : IdSource) (scriptId : String) (characterId : Option String) (message : String)
    (line : Option Nat) (trace : List String) : ErrorReport × IdSource :=
  let (id, ids) := ids.next stem
  (⟨id, scriptId, characterId, message, line, traceText trace⟩, ids)

end ErrorReport

end SheetScript
