import SheetScript.Engine.Config
import SheetScript.Error

/-!
# Failures of the engine

One type for whatever can fail around a script, as the host sees it. The wording starts with the
part of the engine that failed.
-/

namespace SheetScript

/-- A failure, by the part that failed. -/
inductive EngineError where
  | script (text : String)
  | event (text : String)
  | io (text : String)
  | serialization (text : String)
  | config (text : String)
  deriving DecidableEq, Repr, Inhabited

namespace EngineError

/-- The wording of a failure. -/
def message : EngineError → String
  | script text => "Script error: " ++ text
  | event text => "Event error: " ++ text
  | io text => "IO error: " ++ text
  | serialization text => "Serialization error: " ++ text
  | config text => "Configuration error: " ++ text

/-- The failure of a script. -/
def ofScriptError (e : ScriptError) : EngineError := script e.message

/-- The failure of options. -/
def ofConfigError (e : ConfigError) : EngineError := config e.message

end EngineError

end SheetScript
