import SheetScript.Error
import SheetScript.Value.Basic

/-!
# Positions inside a value

* `Value.get` reads `value[position]`.
* `Value.put` is the value with another element at the position. The position right behind an array
  makes it one longer, and a map takes any key.

An array and a text are indexed by integers from `0`, a map by the text of the position.
-/

namespace SheetScript.Value

/-- The index that a position is in a list of that length. -/
def index? (position : Value) (length : Nat) : Except ScriptError Nat :=
  let refused : Except ScriptError Nat := .error (.type (.notAnIndex position.display))
  match position with
  | number x =>
    match Number.integer? x with
    | some i =>
      if 0 ≤ i && i < length then .ok i.toNat
      else .error (.indexOutOfRange (Number.clampWord i) length)
    | none => refused
  | _ => refused

/-- The element at a position. A key that a map lacks gives `null`. -/
def get (container position : Value) : Except ScriptError Value :=
  match container with
  | array items => (position.index? items.length).map fun i => items.getD i null
  | string s =>
    let cs := s.toList
    (position.index? cs.length).map fun i => string (String.ofList (cs.drop i |>.take 1))
  | map entries => .ok ((Entries.find? entries position.display).getD null)
  | v => .error (.type (.notIndexable v.typeName))

/-- Whether a position is the one right behind a list of that length. -/
def isNextIndex (position : Value) (length : Nat) : Bool :=
  match position with
  | number x => x == Float.ofNat length
  | _ => false

/-- The container with another element at a position. -/
def put (container position element : Value) : Except ScriptError Value :=
  match container with
  | array items =>
    if position.isNextIndex items.length then .ok (array (items ++ [element]))
    else (position.index? items.length).map fun i => array (items.set i element)
  | map entries => .ok (map (Entries.insert entries position.display element))
  | v => .error (.type (.notWritable v.typeName))

end SheetScript.Value
