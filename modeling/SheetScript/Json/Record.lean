import SheetScript.Json.Basic

/-!
# Records as JSON

A record is read from an object, whose members are its fields, or from an array, whose items are
its fields in order. Members that are no field are passed over. A field is missing when the object
or the array does not have it; what that means is up to the field:

* `text?`, `flag?`, `natural?` and `list?` want the field there and of the right kind;
* `textOrNull?` and `naturalOrNull?` take `null` as well;
* `orElse` gives a default for a missing field only.

An array may leave out only fields at its end that have a default.
-/

namespace SheetScript.Json

/-- The fields of a record with these names, of which an array has to give the first `needed`. -/
def fields? (names : List String) (needed : Nat) (json : Json) : Option (List (Option Json)) :=
  match json with
  | object members => some (names.map (Entries.find? members))
  | array items =>
    if needed ≤ items.length && items.length ≤ names.length then
      some ((List.range names.length).map fun i => items[i]?)
    else none
  | _ => none

/-- A text. -/
def text? : Json → Option String
  | string s => some s
  | _ => none

/-- A text or `null`. -/
def textOrNull? : Json → Option (Option String)
  | null => some none
  | string s => some (some s)
  | _ => none

/-- A truth value. -/
def flag? : Json → Option Bool
  | bool b => some b
  | _ => none

/-- A natural number. -/
def natural? : Json → Option Nat
  | integer i => if 0 ≤ i then some i.toNat else none
  | _ => none

/-- A natural number or `null`. -/
def naturalOrNull? : Json → Option (Option Nat)
  | null => some none
  | json => json.natural?.map some

/-- A list. -/
def list? {α : Type} (read : Json → Option α) : Json → Option (List α)
  | array items => items.mapM read
  | _ => none

/-- A field that may be missing. -/
def orElse {α : Type} (field : Option Json) (read : Json → Option α) (missing : α) : Option α :=
  match field with
  | some json => read json
  | none => some missing

end SheetScript.Json
