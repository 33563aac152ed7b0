import SheetScript.Sheet.Basic

/-!
# A sheet during a run

A run that owns a sheet writes to it through a `Desk`. A staging desk keeps the writes, one value
for each attribute, until `commit` brings them to the sheet; a direct desk writes to its sheet at
once.
Either way a read gives what the run itself wrote last.
-/

namespace SheetScript

/-- When writes reach the sheet. -/
inductive WritePolicy where
  /-- When they are committed. -/
  | staged
  /-- At once. -/
  | direct
  deriving DecidableEq, Repr, Inhabited

/-- A sheet and the writes to it that are waiting, by the ids of their attributes. -/
structure Desk where
  sheet : Sheet
  writes : Entries Json := []
  policy : WritePolicy := .staged
  deriving Inhabited

namespace Desk

/-- The value of an attribute as the run sees it. -/
def read? (d : Desk) (id : String) : Option Json :=
  match Entries.find? d.writes id with
  | some value => some value
  | none => (d.sheet.byId? id).map (·.value)

/-- Write the value of an attribute. -/
def write (d : Desk) (id : String) (value : Json) : Desk :=
  match d.policy with
  | .staged => { d with writes := Entries.insert d.writes id value }
  | .direct => { d with sheet := d.sheet.setById id value }

/-- The ids of the attributes whose writes are waiting, in order. -/
def stagedIds (d : Desk) : List String := Entries.keys d.writes

end Desk

/-- Bring writes to a sheet, in the order of the ids. -/
def Sheet.commit (s : Sheet) (writes : Entries Json) : Sheet :=
  writes.foldl (fun s write => s.setById write.1 write.2) s

/-- How many of the writes reach an attribute of the sheet. -/
def Sheet.landing (s : Sheet) (writes : Entries Json) : Nat :=
  writes.countP fun write => (s.byId? write.1).isSome

end SheetScript
