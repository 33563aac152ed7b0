import SheetScript.Entries
import SheetScript.Error

/-!
# Subscriptions

Which attributes each script reads. The registry keeps the relation twice, by script and by
attribute, so that both questions are one look-up; every operation changes both sides. A script or
an attribute that is in no pair is in neither index.

A script subscribes under its own id, or under the current script of the registry.
-/

namespace SheetScript

/-- An index from texts to sets of texts; no set is empty. -/
abbrev Index := Entries Names

namespace Index

/-- The set of a text. -/
def get (index : Index) (key : String) : Names := (Entries.find? index key).getD []

/-- Add a text to the set of another. -/
def add (index : Index) (key name : String) : Index :=
  Entries.insert index key (Names.insert (get index key) name)

/-- Drop a text from the set of another, and the set when it becomes empty. -/
def drop (index : Index) (key name : String) : Index :=
  match Entries.find? index key with
  | none => index
  | some names =>
    let left := Names.erase names name
    if left.isEmpty then Entries.erase index key else Entries.insert index key left

end Index

/-- The pairs of scripts and attributes, and the script that subscribes by default. -/
structure Subscriptions where
  current : Option String := none
  /-- The attributes of each script. -/
  byScript : Index := []
  /-- The scripts of each attribute. -/
  byAttribute : Index := []
  deriving DecidableEq, Repr, Inhabited

namespace Subscriptions

/-- Let a script subscribe by default. -/
def setCurrent (s : Subscriptions) (script : String) : Subscriptions :=
  { s with current := some script }

/-- Let no script subscribe by default. -/
def clearCurrent (s : Subscriptions) : Subscriptions := { s with current := none }

/-- Add a pair. -/
def add (s : Subscriptions) (script attr : String) : Subscriptions :=
  { s with
    byScript := Index.add s.byScript script attr
    byAttribute := Index.add s.byAttribute attr script }

/-- Subscribe a script to attributes. -/
def registerFor (s : Subscriptions) (script : String) (attributes : List String) :
    Subscriptions :=
  attributes.foldl (fun s attr => s.add script attr) s

/-- Subscribe the current script to attributes. -/
def register (s : Subscriptions) (attributes : List String) :
    Except ScriptError Subscriptions :=
  match s.current with
  | none => .error .noScriptContext
  | some script => .ok (s.registerFor script attributes)

/-- The scripts that read an attribute, in order. -/
def subscribers (s : Subscriptions) (attr : String) : Names :=
  Index.get s.byAttribute attr

/-- The attributes that a script reads, in order. -/
def dependencies (s : Subscriptions) (script : String) : Names := Index.get s.byScript script

/-- Drop all pairs of a script. -/
def clear (s : Subscriptions) (script : String) : Subscriptions :=
  { s with
    byScript := Entries.erase s.byScript script
    byAttribute := (s.dependencies script).foldl
      (fun index attr => Index.drop index attr script) s.byAttribute }

/-- Drop all pairs. -/
def clearAll (s : Subscriptions) : Subscriptions :=
  { s with byScript := [], byAttribute := [] }

/-- How many scripts have a pair. -/
def scriptCount (s : Subscriptions) : Nat := s.byScript.length

/-- How many attributes have a pair. -/
def attributeCount (s : Subscriptions) : Nat := s.byAttribute.length

end Subscriptions

end SheetScript
