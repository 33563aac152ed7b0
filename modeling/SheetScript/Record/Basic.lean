/-!
# Records of the host

The things the host stores and lends to a run: scripts, charts, actions and items. They are plain
data; nothing here runs.
-/

namespace SheetScript

/-- What a script belongs to. -/
inductive EntityKind where
  | attr | item | action
  /-- A script of no single entity. -/
  | global
  deriving DecidableEq, Repr, Inhabited

namespace EntityKind

/-- The name of a kind. -/
def name : EntityKind → String
  | attr => "attribute"
  | item => "item"
  | action => "action"
  | global => "global"

/-- All kinds. -/
def all : List EntityKind := [attr, item, action, global]

/-- The kind of that name. -/
def ofName? (s : String) : Option EntityKind := all.find? (·.name == s)

end EntityKind

/-- A stored script. -/
structure Script where
  id : String
  rulesetId : String
  entityKind : EntityKind
  entityId : Option String
  source : String
  enabled : Bool
  isGlobal : Bool
  deriving DecidableEq, Repr, Inhabited

/-- An enabled script. -/
def Script.new (id rulesetId : String) (kind : EntityKind) (entityId : Option String)
    (source : String) : Script where
  id := id
  rulesetId := rulesetId
  entityKind := kind
  entityId := entityId
  source := source
  enabled := true
  isGlobal := kind == .global

/-- A stored chart. Its data is the text of a JSON array of rows, the first of them the header. -/
structure Chart where
  id : String
  rulesetId : String
  title : String
  data : String
  deriving DecidableEq, Repr, Inhabited

/-- A stored action. -/
structure Action where
  id : String
  rulesetId : String
  title : String
  scriptId : Option String
  deriving DecidableEq, Repr, Inhabited

/-- A stored item. -/
structure Item where
  id : String
  rulesetId : String
  title : String
  scriptId : Option String
  deriving DecidableEq, Repr, Inhabited

end SheetScript
