import SheetScript.Json.Basic

/-!
# Character sheets

A sheet is the attributes and the items of one character. Attributes keep the order in which they
came; no two have the same id, but names may repeat, and a name means the first attribute that has
it.
-/

namespace SheetScript

/-- An attribute of a character. -/
structure Attribute where
  id : String
  name : String
  value : Json
  deriving BEq, Inhabited

/-- The attributes and items of a character. -/
structure Sheet where
  characterId : String
  rulesetId : String
  attributes : List Attribute := []
  items : List String := []
  deriving BEq, Inhabited

namespace Sheet

/-- Add an attribute at the end, in place of the one that has its id. -/
def addAttribute (s : Sheet) (a : Attribute) : Sheet :=
  { s with attributes := s.attributes.filter (·.id != a.id) ++ [a] }

/-- Add an item. -/
def addItem (s : Sheet) (name : String) : Sheet := { s with items := s.items ++ [name] }

/-- Whether the character has an item. -/
def hasItem (s : Sheet) (name : String) : Bool := s.items.contains name

/-- Remove one item of that name. -/
def removeItem (s : Sheet) (name : String) : Sheet := { s with items := s.items.erase name }

/-- The first attribute of that name. -/
def byName? (s : Sheet) (name : String) : Option Attribute :=
  s.attributes.find? (·.name == name)

/-- The attribute of that id. -/
def byId? (s : Sheet) (id : String) : Option Attribute := s.attributes.find? (·.id == id)

/-- Replace the value of the first attribute that the test holds of. -/
def setFirst (test : Attribute → Bool) (value : Json) : List Attribute → List Attribute
  | [] => []
  | a :: rest =>
    if test a then { a with value := value } :: rest else a :: setFirst test value rest

/-- Set the value of the first attribute of that name, if there is one. -/
def setByName (s : Sheet) (name : String) (value : Json) : Sheet :=
  { s with attributes := setFirst (·.name == name) value s.attributes }

/-- Set the value of the attribute of that id, if there is one. -/
def setById (s : Sheet) (id : String) (value : Json) : Sheet :=
  { s with attributes := setFirst (·.id == id) value s.attributes }

end Sheet

end SheetScript
