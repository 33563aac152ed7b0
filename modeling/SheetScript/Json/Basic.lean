import SheetScript.Entries

/-!
# JSON values

The data that scripts and their host exchange. An integer and a real are different even when they
name the same number: `3` and `3.0` are not equal. The members of an object are kept in the order
of their names.
-/

namespace SheetScript

/-- A JSON value. -/
inductive Json where
  | null
  | bool (b : Bool)
  /-- A number without point and power of ten, between `-2 ^ 63` and `2 ^ 64 - 1`. -/
  | integer (i : Int)
  /-- Any other number; it is finite. -/
  | real (x : Float)
  | string (s : String)
  | array (items : List Json)
  /-- The members, in the order of their names and each name once. -/
  | object (members : List (String × Json))
  deriving Inhabited

namespace Json

mutual

/-- Equality of values. Reals are compared as numbers, so that both zeros are equal. -/
def beq : Json → Json → Bool
  | null, null => true
  | bool a, bool b => a == b
  | integer a, integer b => a == b
  | real a, real b => a == b
  | string a, string b => a == b
  | array a, array b => beqItems a b
  | object a, object b => beqMembers a b
  | _, _ => false

/-- Equality of lists of values, item by item. -/
def beqItems : List Json → List Json → Bool
  | [], [] => true
  | a :: as, b :: bs => beq a b && beqItems as bs
  | _, _ => false

/-- Equality of the members of two objects, name by name. -/
def beqMembers : List (String × Json) → List (String × Json) → Bool
  | [], [] => true
  | (j, a) :: as, (k, b) :: bs => j == k && beq a b && beqMembers as bs
  | _, _ => false

end

instance : BEq Json := ⟨beq⟩

/-- The object of the given members; the last of equal names wins. -/
def ofMembers (members : List (String × Json)) : Json := object (Entries.ofList members)

/-- A member of an object. -/
def member? (json : Json) (name : String) : Option Json :=
  match json with
  | object members => Entries.find? members name
  | _ => none

/-- The value, or nothing for `null`. -/
def nonNull? : Json → Option Json
  | null => none
  | json => some json

/-- A value, with `null` for nothing. -/
def ofOption (json : Option Json) : Json := json.getD null

/-- A text, with `null` for nothing. -/
def ofText? (text : Option String) : Json := ofOption (text.map string)

/-- A natural number. -/
def ofNat (n : Nat) : Json := integer n

/-- A list of texts. -/
def ofTexts (texts : List String) : Json := array (texts.map string)

end Json

end SheetScript
