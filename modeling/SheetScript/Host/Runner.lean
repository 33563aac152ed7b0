import SheetScript.Engine.Basic
import SheetScript.Record.Wire

/-!
# Running scripts on request

A request names a script, the event whose function is to be called, if any, and the character it is
for. A reply is the result of the run as plain data. Both have a JSON form, so that they can pass
between processes.

A `Runner` answers requests with an engine, the sheets of its characters and the charts of its
rulesets. The writes of a run reach the sheet when the run succeeds, and only then.
-/

namespace SheetScript

/-- What to run. -/
structure RunRequest where
  script : Script
  /-- The function to call after the top level has run. -/
  event : Option String
  characterId : Option String
  args : List Json := []
  /-- Charts for this run, beside those of the runner. -/
  charts : List Chart := []
  deriving Inhabited

/-- Why a run failed. -/
structure RunError where
  message : String
  line : Option Nat
  trace : List String := []
  deriving DecidableEq, Repr, Inhabited

/-- The result of a run as plain data. -/
structure RunReply where
  value : Json := .null
  announcements : List String := []
  logs : List String := []
  signals : List Signal := []
  /-- The ids of the attributes written, if there are any. -/
  modified : Option (List String) := none
  error : Option RunError := none
  deriving Inhabited

namespace RunRequest

/-- Read a request. -/
def ofJson? (json : Json) : Option RunRequest := do
  match ← json.fields? ["script", "event", "characterId", "args", "charts"] 3 with
  | [some script, event, characterId, args, charts] =>
    return {
      script := ← Script.ofJson? script
      event := ← Json.orElse event Json.textOrNull? none
      characterId := ← Json.orElse characterId Json.textOrNull? none
      args := ← Json.orElse args (Json.list? some) []
      charts := ← Json.orElse charts (Json.list? Chart.ofJson?) [] }
  | _ => none

/-- Write a request. -/
def toJson (r : RunRequest) : Json := Json.ofMembers
  [("script", r.script.toJson), ("event", Json.ofText? r.event),
    ("characterId", Json.ofText? r.characterId), ("args", .array r.args),
    ("charts", .array (r.charts.map Chart.toJson))]

end RunRequest

namespace RunError

/-- Read an error. -/
def ofJson? (json : Json) : Option RunError := do
  match ← json.fields? ["message", "line", "stackTrace"] 2 with
  | [some message, line, trace] =>
    return ⟨← message.text?, ← Json.orElse line Json.naturalOrNull? none,
      ← Json.orElse trace (Json.list? Json.text?) []⟩
  | _ => none

/-- Write an error. -/
def toJson (e : RunError) : Json := Json.ofMembers
  [("message", .string e.message), ("line", Json.ofOption (e.line.map Json.ofNat)),
    ("stackTrace", Json.ofTexts e.trace)]

/-- The error of a failure. -/
def ofFailure (f : Failure) : RunError := ⟨f.error.message, f.line, f.trace⟩

end RunError

namespace RunReply

/-- The fields of a reply. -/
def fieldNames : List String :=
  ["value", "announceMessages", "logMessages", "signals", "modifiedAttributeIds", "error"]

/-- Read a list of texts, or nothing for `null`. -/
def textsOrNull? (json : Json) : Option (Option (List String)) :=
  match json with
  | .null => some none
  | json => (json.list? Json.text?).map some

/-- Read an error, or nothing for `null`. -/
def errorOrNull? (json : Json) : Option (Option RunError) :=
  match json with
  | .null => some none
  | json => (RunError.ofJson? json).map some

/-- Read a reply. Every field may be missing. -/
def ofJson? (json : Json) : Option RunReply := do
  match ← json.fields? fieldNames 0 with
  | [value, announcements, logs, signals, modified, error] =>
    return {
      value := value.getD .null
      announcements := ← Json.orElse announcements (Json.list? Json.text?) []
      logs := ← Json.orElse logs (Json.list? Json.text?) []
      signals := ← Json.orElse signals (Json.list? Signal.ofJson?) []
      modified := ← Json.orElse modified textsOrNull? none
      error := ← Json.orElse error errorOrNull? none }
  | _ => none

/-- Write a reply. What is not there is not mentioned. -/
def toJson (r : RunReply) : Json := Json.ofMembers <|
  [("value", r.value), ("announceMessages", Json.ofTexts r.announcements),
    ("logMessages", Json.ofTexts r.logs), ("signals", .array (r.signals.map Signal.toJson))] ++
    (match r.modified with
      | some ids => [("modifiedAttributeIds", Json.ofTexts ids)]
      | none => []) ++
    (match r.error with
      | some e => [("error", e.toJson)]
      | none => [])

/-- The result of a run as plain data. -/
def ofResult (r : RunResult) : RunReply where
  value := r.value.toJson
  announcements := r.effects.announcements.toList.map (·.message)
  logs := r.effects.logs.toList
  signals := r.effects.signals.toList
  modified := if r.effects.modified.isEmpty then none else some r.effects.modified
  error := r.failure.map RunError.ofFailure

end RunReply

/-- An engine with sheets and charts. -/
structure Runner where
  engine : Engine
  /-- The sheets, by the ids of their characters. -/
  sheets : Entries Sheet := []
  /-- The charts, by the ids of their rulesets. -/
  charts : Entries (List Chart) := []
  /-- Where the runs draw from, one after another. -/
  draws : Draws := {}
  deriving Inhabited

namespace Runner

/-- A runner without sheets and charts. -/
def new (engine : Engine) : Runner := { engine := engine }

/-- Add the sheet of a character, in place of the one it has. -/
def addSheet (r : Runner) (s : Sheet) : Runner :=
  { r with sheets := Entries.insert r.sheets s.characterId s }

/-- The sheet of a character. -/
def sheet? (r : Runner) (characterId : String) : Option Sheet :=
  Entries.find? r.sheets characterId

/-- Add a chart to its ruleset. -/
def addChart (r : Runner) (c : Chart) : Runner :=
  let charts := (Entries.find? r.charts c.rulesetId).getD []
  { r with charts := Entries.insert r.charts c.rulesetId (charts ++ [c]) }

/-- The context for a character, who owns the sheet that the runner has for them. -/
def forCharacter (r : Runner) (c : Context) (characterId : Option String) : Context :=
  match characterId with
  | none => c
  | some id =>
    let c := c.withCharacter id
    match r.sheet? id with
    | some sheet => c.install sheet
    | none => c

/-- The context of a request. -/
def contextOf (r : Runner) (q : RunRequest) : Context :=
  let charts := (Entries.find? r.charts q.script.rulesetId).getD [] ++ q.charts
  let start := (Context.forScript q.script).withDraws r.draws
  charts.foldl Context.addChart (r.forCharacter start q.characterId)

/-- Bring the writes of a run to the sheet of a character. -/
def commit (r : Runner) (characterId : Option String) (writes : Entries Json) : Runner :=
  match characterId.bind r.sheet? with
  | some sheet => r.addSheet (sheet.commit writes)
  | none => r

/-- Run what a request names. -/
def evaluate (r : Runner) (q : RunRequest) : Engine.Ran :=
  match q.event with
  | some event => r.engine.runEvent q.script event (q.args.map Value.ofJson) (r.contextOf q)
  | none => r.engine.runScript q.script (r.contextOf q)

/-- Answer a request. -/
def run (r : Runner) (q : RunRequest) : RunReply × Runner :=
  let (result, context, engine) := r.evaluate q
  let r := { r with engine := engine, draws := context.draws }
  (RunReply.ofResult result,
    if result.ok then r.commit q.characterId context.writes else r)

end Runner

end SheetScript
