import SheetScript.Json.Basic
import SheetScript.Number.Notation
import SheetScript.Number.Reading
import SheetScript.Program.Basic
import SheetScript.Value.Builtin

/-!
# Values

What an expression stands for during a run. Numbers, texts, arrays and maps are data. Functions,
charts, rows and objects have an identity of their own: two of them are equal only when they are the
same one. What a value needs beyond that, such as the variables of a function, is found in the run
through the value's place there.

* `Value.truthy` is what a condition asks.
* `Value.looseEq` is the equality of the language.
* `Value.display` is the text of a value.
* `Value.toJson` and `Value.ofJson` take values to the host and back.
-/

namespace SheetScript

/-- A function with the variables it sees. -/
structure Closure where
  /-- When the block that declares the function was entered. A block entered again declares another
  function. -/
  entry : Nat
  decl : Function
  /-- The places of the scopes around the declaration, the innermost first. -/
  scopes : List Nat
  deriving Repr, Inhabited

/-- A chart that has been read: its header and its rows of cells. -/
structure Table where
  identity : Nat
  name : String
  header : List String
  rows : List (List Json)
  deriving Inhabited

/-- Some rows of a chart. -/
structure Row where
  identity : Nat
  table : Table
  /-- The positions of the rows, in order. -/
  positions : List Nat
  deriving Inhabited

/-- A function of the host: its place among them, and its name. -/
structure NativeRef where
  place : Nat
  name : String
  deriving DecidableEq, Repr, Inhabited

/-- An object of the host. -/
inductive ObjectRef where
  /-- The character that the run is for. -/
  | owner
  /-- A handle on an attribute of that character. -/
  | handle (identity : Nat) (id name : String)
  /-- An object that the host has placed among its own. -/
  | custom (place : Nat) (type : String)
  deriving DecidableEq, Repr, Inhabited

/-- A value. -/
inductive Value where
  | null
  | bool (b : Bool)
  | number (x : Float)
  | string (s : String)
  | array (items : List Value)
  /-- The entries, in the order of their keys and each key once. -/
  | map (entries : List (String × Value))
  | function (f : Closure)
  | builtin (b : Builtin)
  | native (f : NativeRef)
  | chart (t : Table)
  | row (r : Row)
  | object (o : ObjectRef)
  deriving Inhabited

/-- The type that an error names for an object. -/
def ObjectRef.typeName : ObjectRef → String
  | owner => "Owner"
  | handle .. => "Attribute"
  | custom _ type => type

namespace Value

/-- The type that an error names for a value. -/
def typeName : Value → String
  | null => "null"
  | bool _ => "bool"
  | number _ => "number"
  | string _ => "string"
  | array _ => "array"
  | map _ => "map"
  | function _ => "function"
  | builtin _ => "function"
  | native _ => "function"
  | chart _ => "chart"
  | row _ => "row"
  | object o => o.typeName

/-- Whether a condition holds: `null`, `false`, zero, no number, the empty text and the empty array
do not. -/
def truthy : Value → Bool
  | null => false
  | bool b => b
  | number x => x != 0.0 && !x.isNaN
  | string s => !s.isEmpty
  | array items => !items.isEmpty
  | _ => true

/-- The number that a value is. -/
def asNumber? : Value → Option Float
  | number x => some x
  | _ => none

/-- The number that a value can be read as. A blank text is zero. -/
def toNumber? : Value → Option Float
  | number x => some x
  | bool b => some (if b then 1.0 else 0.0)
  | string s =>
    let text := Text.trimmed s
    if text.isEmpty then some 0.0 else Number.read? text
  | _ => none

/-- Equality of two values as numbers; false when one of them is no number. -/
def numericEq (a b : Value) : Bool :=
  match a.toNumber?, b.toNumber? with
  | some x, some y => x == y
  | _, _ => false

mutual

/-- The equality of the language. A number and a text, and a boolean and anything, are compared as
numbers; `null` equals only itself. -/
def looseEq : Value → Value → Bool
  | null, null => true
  | null, _ => false
  | _, null => false
  | bool a, bool b => a == b
  | number a, number b => a == b
  | string a, string b => a == b
  | number a, string b => numericEq (number a) (string b)
  | string a, number b => numericEq (string a) (number b)
  | bool a, b => numericEq (bool a) b
  | a, bool b => numericEq a (bool b)
  | array as, array bs => looseEqItems as bs
  | map as, map bs => as.length == bs.length && looseEqEntries as bs
  | function f, function g => f.entry == g.entry && f.decl.name == g.decl.name
  | builtin f, builtin g => f == g
  | native f, native g => f.place == g.place
  | chart s, chart t => s.identity == t.identity
  | row r, row s => r.identity == s.identity
  | object o, object p => o == p
  | _, _ => false

/-- Equality of two arrays, item by item. -/
def looseEqItems : List Value → List Value → Bool
  | [], [] => true
  | a :: as, b :: bs => looseEq a b && looseEqItems as bs
  | _, _ => false

/-- Whether the second map has an equal value for every entry of the first. -/
def looseEqEntries : List (String × Value) → List (String × Value) → Bool
  | [], _ => true
  | (key, a) :: as, bs =>
    (match Entries.find? bs key with
      | some b => looseEq a b
      | none => false) && looseEqEntries as bs

end

mutual

/-- The text of a value. -/
def display : Value → String
  | null => "null"
  | bool b => if b then "true" else "false"
  | number x => Number.display x
  | string s => s
  | array items => "[" ++ String.intercalate ", " (displayItems items) ++ "]"
  | map entries => "\x7b" ++ String.intercalate ", " (displayEntries entries) ++ "\x7d"
  | function f => "<function " ++ f.decl.name ++ ">"
  | builtin b => "<builtin " ++ b.name ++ ">"
  | native f => "<native " ++ f.name ++ ">"
  | chart t => "<chart " ++ t.name ++ ">"
  | row r => "<row of " ++ Number.integerText r.positions.length ++ " match(es)>"
  | object o => "<" ++ o.typeName ++ ">"

/-- The texts of the items of an array. -/
def displayItems : List Value → List String
  | [] => []
  | v :: rest => v.display :: displayItems rest

/-- The texts of the entries of a map. -/
def displayEntries : List (String × Value) → List String
  | [] => []
  | (key, v) :: rest => (key ++ ": " ++ v.display) :: displayEntries rest

end

/-- Below this magnitude an integral number leaves a run as an integer. -/
def exportedIntegers : Nat := 9 * Nat.pow 10 15

/-- A number as data of the host: an integer when it is one and not too large, `null` when it is not
finite. -/
def numberToJson (x : Float) : Json :=
  match Number.integer? x with
  | some i => if i.natAbs < exportedIntegers then .integer i else .real x
  | none => if x.isFinite then .real x else .null

mutual

/-- A value as data of the host. What is no data becomes its text. -/
def toJson : Value → Json
  | null => .null
  | bool b => .bool b
  | number x => numberToJson x
  | string s => .string s
  | array items => .array (toJsonItems items)
  | map entries => .object (toJsonEntries entries)
  | v => .string v.display

/-- The items of an array as data. -/
def toJsonItems : List Value → List Json
  | [] => []
  | v :: rest => v.toJson :: toJsonItems rest

/-- The entries of a map as data. -/
def toJsonEntries : List (String × Value) → List (String × Json)
  | [] => []
  | (key, v) :: rest => (key, v.toJson) :: toJsonEntries rest

end

mutual

/-- Data of the host as a value. -/
def ofJson : Json → Value
  | .null => null
  | .bool b => bool b
  | .integer i => number (Float.ofInt i)
  | .real x => number x
  | .string s => string s
  | .array items => array (ofJsonItems items)
  | .object members => map (ofJsonMembers members)

/-- The items of an array as values. -/
def ofJsonItems : List Json → List Value
  | [] => []
  | json :: rest => ofJson json :: ofJsonItems rest

/-- The members of an object as values. -/
def ofJsonMembers : List (String × Json) → List (String × Value)
  | [] => []
  | (name, json) :: rest => (name, ofJson json) :: ofJsonMembers rest

end

end Value

end SheetScript
