import SheetScript.Entries
import SheetScript.Record.Basic

/-!
# The records of a host

A store holds the host's actions, items, scripts and charts by their ids. A record that is put in
takes the place of the one that has its id.
-/

namespace SheetScript

/-- Records by id. -/
structure Store where
  actions : Entries Action := []
  items : Entries Item := []
  scripts : Entries Script := []
  charts : Entries Chart := []
  deriving DecidableEq, Repr, Inhabited

namespace Store

/-- Put in an action. -/
def insertAction (s : Store) (a : Action) : Store :=
  { s with actions := Entries.insert s.actions a.id a }

/-- Put in an item. -/
def insertItem (s : Store) (i : Item) : Store := { s with items := Entries.insert s.items i.id i }

/-- Put in a script. -/
def insertScript (s : Store) (script : Script) : Store :=
  { s with scripts := Entries.insert s.scripts script.id script }

/-- Put in a chart. -/
def insertChart (s : Store) (c : Chart) : Store :=
  { s with charts := Entries.insert s.charts c.id c }

/-- The action of an id. -/
def action? (s : Store) (id : String) : Option Action := Entries.find? s.actions id

/-- The item of an id. -/
def item? (s : Store) (id : String) : Option Item := Entries.find? s.items id

/-- The script of an id. -/
def script? (s : Store) (id : String) : Option Script := Entries.find? s.scripts id

/-- The charts of a ruleset, in the order of their ids. -/
def chartsOf (s : Store) (rulesetId : String) : List Chart :=
  (Entries.values s.charts).filter (·.rulesetId == rulesetId)

/-- Remove a script. -/
def removeScript (s : Store) (id : String) : Store :=
  { s with scripts := Entries.erase s.scripts id }

/-- Enable or disable a script, if there is one of that id. -/
def setEnabled (s : Store) (id : String) (enabled : Bool) : Store :=
  match s.script? id with
  | some script =>
    { s with scripts := Entries.insert s.scripts id { script with enabled := enabled } }
  | none => s

end Store

end SheetScript
