import SheetScript.Json.Record
import SheetScript.Record.Basic
import SheetScript.Record.Report
import SheetScript.Run.Effects
import SheetScript.Sheet.Basic

/-!
# Records on the wire

The JSON forms in which the host and the engine exchange records: for each kind of record a reader
`ofJson?` and a writer `toJson`. A reader gives nothing for data that is no such record.
-/

namespace SheetScript

namespace EntityKind

/-- Read a kind: its name, alone or as the only member of an object with nothing in it. -/
def ofJson? : Json → Option EntityKind
  | .string s => ofName? s
  | .object [(name, .null)] => ofName? name
  | _ => none

end EntityKind

namespace Script

/-- The fields of a script. -/
def fieldNames : List String :=
  ["id", "rulesetId", "entityType", "entityId", "sourceCode", "enabled", "isGlobal"]

/-- Read a script. -/
def ofJson? (json : Json) : Option Script := do
  match ← json.fields? fieldNames 6 with
  | [some id, some rulesetId, some kind, entityId, some source, some enabled, isGlobal] =>
    return {
      id := ← id.text?
      rulesetId := ← rulesetId.text?
      entityKind := ← EntityKind.ofJson? kind
      entityId := ← Json.orElse entityId Json.textOrNull? none
      source := ← source.text?
      enabled := ← enabled.flag?
      isGlobal := ← Json.orElse isGlobal Json.flag? false }
  | _ => none

/-- Write a script. -/
def toJson (s : Script) : Json := Json.ofMembers
  [("id", .string s.id), ("rulesetId", .string s.rulesetId),
    ("entityType", .string s.entityKind.name), ("entityId", Json.ofText? s.entityId),
    ("sourceCode", .string s.source), ("enabled", .bool s.enabled), ("isGlobal", .bool s.isGlobal)]

end Script

namespace Chart

/-- Read a chart. -/
def ofJson? (json : Json) : Option Chart := do
  match ← json.fields? ["id", "rulesetId", "title", "data"] 4 with
  | [some id, some rulesetId, some title, some data] =>
    return ⟨← id.text?, ← rulesetId.text?, ← title.text?, ← data.text?⟩
  | _ => none

/-- Write a chart. -/
def toJson (c : Chart) : Json := Json.ofMembers
  [("id", .string c.id), ("rulesetId", .string c.rulesetId), ("title", .string c.title),
    ("data", .string c.data)]

end Chart

/-- Read what actions and items have in common: id, ruleset, title and script. -/
def Json.entity? (json : Json) : Option (String × String × String × Option String) := do
  match ← json.fields? ["id", "rulesetId", "title", "scriptId"] 4 with
  | [some id, some rulesetId, some title, scriptId] =>
    return (← id.text?, ← rulesetId.text?, ← title.text?,
      ← Json.orElse scriptId Json.textOrNull? none)
  | _ => none

/-- Write what actions and items have in common. -/
def Json.ofEntity (id rulesetId title : String) (scriptId : Option String) : Json :=
  Json.ofMembers [("id", .string id), ("rulesetId", .string rulesetId), ("title", .string title),
    ("scriptId", Json.ofText? scriptId)]

namespace Action

/-- Read an action. -/
def ofJson? (json : Json) : Option Action := do
  let (id, rulesetId, title, scriptId) ← json.entity?
  return ⟨id, rulesetId, title, scriptId⟩

/-- Write an action. -/
def toJson (a : Action) : Json := Json.ofEntity a.id a.rulesetId a.title a.scriptId

end Action

namespace Item

/-- Read an item. -/
def ofJson? (json : Json) : Option Item := do
  let (id, rulesetId, title, scriptId) ← json.entity?
  return ⟨id, rulesetId, title, scriptId⟩

/-- Write an item. -/
def toJson (i : Item) : Json := Json.ofEntity i.id i.rulesetId i.title i.scriptId

end Item

namespace Attribute

/-- Read an attribute. -/
def ofJson? (json : Json) : Option Attribute := do
  match ← json.fields? ["id", "name", "value"] 3 with
  | [some id, some name, some value] => return ⟨← id.text?, ← name.text?, value⟩
  | _ => none

/-- Write an attribute. -/
def toJson (a : Attribute) : Json := Json.ofMembers
  [("id", .string a.id), ("name", .string a.name), ("value", a.value)]

end Attribute

namespace Announcement

/-- Read an announcement. -/
def ofJson? (json : Json) : Option Announcement := do
  match ← json.fields? ["message", "announcementId"] 2 with
  | [some message, id] => return ⟨← message.text?, ← Json.orElse id Json.textOrNull? none⟩
  | _ => none

/-- Write an announcement. -/
def toJson (a : Announcement) : Json := Json.ofMembers
  [("message", .string a.message), ("announcementId", Json.ofText? a.id)]

end Announcement

namespace Signal

/-- The tag of a signal and the record beside it: the tag is a member of an object or the first item
of an array. -/
def tagged? : Json → Option (Json × Json)
  | .object members => (Entries.find? members "type").map fun tag => (tag, .object members)
  | .array (tag :: rest) => some (tag, .array rest)
  | _ => none

/-- Read a signal. -/
def ofJson? (json : Json) : Option Signal := do
  let (tag, body) ← tagged? json
  let tag ← tag.text?
  if tag == "CONSOLE_LOG" then
    match ← body.fields? ["args"] 1 with
    | [some args] => return .consoleLog (← args.list? some)
    | _ => none
  else if tag == "ANNOUNCE" then
    match ← body.fields? ["message", "announcementId"] 1 with
    | [some message, id] =>
      return .announce (← message.text?) (← Json.orElse id Json.textOrNull? none)
    | _ => none
  else none

/-- Write a signal. An announcement without an id does not mention one. -/
def toJson : Signal → Json
  | consoleLog args => Json.ofMembers [("type", .string "CONSOLE_LOG"), ("args", .array args)]
  | announce message id => Json.ofMembers <|
    [("type", .string "ANNOUNCE"), ("message", .string message)] ++
      (match id with
        | some id => [("announcementId", .string id)]
        | none => [])

end Signal

namespace ErrorReport

/-- The fields of a report. -/
def fieldNames : List String :=
  ["id", "scriptId", "characterId", "errorMessage", "lineNumber", "stackTrace", "timestamp"]

/-- Read a report. It has the time of the failure too, which is not kept. -/
def ofJson? (json : Json) : Option ErrorReport := do
  match ← json.fields? fieldNames 7 with
  | [some id, some scriptId, characterId, some message, line, trace, some timestamp] =>
    let _ ← timestamp.natural?
    return {
      id := ← id.text?
      scriptId := ← scriptId.text?
      characterId := ← Json.orElse characterId Json.textOrNull? none
      message := ← message.text?
      line := ← Json.orElse line Json.naturalOrNull? none
      trace := ← Json.orElse trace Json.textOrNull? none }
  | _ => none

/-- Write a report, without the time of the failure. -/
def toJson (r : ErrorReport) : Json := Json.ofMembers
  [("id", .string r.id), ("scriptId", .string r.scriptId),
    ("characterId", Json.ofText? r.characterId), ("errorMessage", .string r.message),
    ("lineNumber", Json.ofOption (r.line.map Json.ofNat)), ("stackTrace", Json.ofText? r.trace)]

end ErrorReport

end SheetScript
