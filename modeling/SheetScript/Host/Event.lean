import SheetScript.Host.Runner

/-!
# Events of actions and items

When something happens to an action or an item, the function that its script has for the event is
run, and the host is told which attributes it wrote.

The host is a parameter: it looks records up, runs requests and takes the notice of written
attributes, each of which may fail, on a state of its own. `Handler.actionEvent` and
`Handler.itemEvent` say which of these happen and in what order. An action or item that does not
exist, or has no script, or a disabled one, is no failure; neither is a script that fails, which
gives a report.
-/

namespace SheetScript

/-- A failure of the host. -/
inductive EventError where
  /-- A record cannot be looked up. -/
  | store (text : String)
  /-- A script cannot be run at all. -/
  | runner (text : String)
  /-- The notice of written attributes is not taken. -/
  | callback (text : String)
  deriving DecidableEq, Repr, Inhabited

/-- The wording of a failure. -/
def EventError.message : EventError → String
  | store text => "Store error: " ++ text
  | runner text => "Script runner error: " ++ text
  | callback text => "Callback error: " ++ text

/-- A step of the host. -/
abbrev HostAct (σ : Type) := EStateM EventError σ

/-- What the host can do. -/
structure Host (σ : Type) where
  action? : String → HostAct σ (Option Action)
  item? : String → HostAct σ (Option Item)
  script? : String → HostAct σ (Option Script)
  /-- The charts of a ruleset. -/
  charts : String → HostAct σ (List Chart)
  run : RunRequest → HostAct σ RunReply
  /-- Take the ids of written attributes, the character's id and the ruleset's id. -/
  notify : List String → String → String → HostAct σ Unit

/-- What an event led to. -/
inductive EventOutcome where
  /-- The action or item does not exist. -/
  | noEntity
  /-- It has no script, or its script does not exist. -/
  | noScript
  /-- Its script is disabled. -/
  | disabled
  /-- The function ran; the ids of the attributes it wrote. -/
  | completed (modified : List String)
  /-- The function failed. -/
  | failed (report : ErrorReport)
  deriving DecidableEq, Repr, Inhabited

/-- The action or item that an event is about. -/
structure EventTarget where
  rulesetId : String
  scriptId : Option String
  deriving DecidableEq, Repr, Inhabited

namespace Handler

variable {σ : Type}

/-- A failure while a notice is taken counts as one of the notice. -/
def asCallback : EventError → EventError
  | .callback text => .callback text
  | e => .callback e.message

/-- Tell the host which attributes were written, if any. -/
def tell (host : Host σ) (modified : List String) (characterId rulesetId : String) :
    HostAct σ Unit := fun s =>
  if modified.isEmpty then .ok () s
  else
    match host.notify modified characterId rulesetId s with
    | .ok () s => .ok () s
    | .error e s => .error (asCallback e) s

/-- Run the function of a script for an event. -/
def runFor (host : Host σ) (ids : IdSource) (target : EventTarget) (script : Script)
    (characterId event : String) (args : List Json) : HostAct σ (EventOutcome × IdSource) := do
  let charts ← host.charts target.rulesetId
  let reply ← host.run
    { script := script, event := some event, characterId := some characterId, args := args,
      charts := charts }
  match reply.error with
  | some e =>
    let (report, ids) := ErrorReport.new ids (target.scriptId.getD "") (some characterId) e.message
      e.line e.trace
    return (.failed report, ids)
  | none =>
    let modified := reply.modified.getD []
    tell host modified characterId target.rulesetId
    return (.completed modified, ids)

/-- Handle an event of an action or item. -/
def handle (host : Host σ) (ids : IdSource) (target : EventTarget) (characterId event : String)
    (args : List Json) : HostAct σ (EventOutcome × IdSource) := do
  match target.scriptId with
  | none => return (.noScript, ids)
  | some scriptId =>
    match ← host.script? scriptId with
    | none => return (.noScript, ids)
    | some script =>
      if script.enabled then runFor host ids target script characterId event args
      else return (.disabled, ids)

/-- Handle an event of an action. The context, if there is one, is the argument of the function. -/
def actionEvent (host : Host σ) (ids : IdSource) (actionId characterId : String)
    (context : Option Json) (event : String) : HostAct σ (EventOutcome × IdSource) := do
  match ← host.action? actionId with
  | none => return (.noEntity, ids)
  | some a => handle host ids ⟨a.rulesetId, a.scriptId⟩ characterId event context.toList

/-- Handle an event of an item. -/
def itemEvent (host : Host σ) (ids : IdSource) (itemId characterId event : String) :
    HostAct σ (EventOutcome × IdSource) := do
  match ← host.item? itemId with
  | none => return (.noEntity, ids)
  | some i => handle host ids ⟨i.rulesetId, i.scriptId⟩ characterId event []

end Handler

end SheetScript
