import SheetScript.Json.Basic
import SheetScript.Number.Notation

/-!
# Printing JSON

* `compact` writes a value on one line without blanks.
* `pretty` writes each item and each member on its own line, two blanks further in for each level.

A real always shows that it is one: `3.0`, `0.00001`, `1e16`, `1.5e-7`.
-/

namespace SheetScript.Json

/-- The digits of a real: positional from `10 ^ -5` up to `10 ^ 16`, a whole number with `.0`. -/
def realDigits (d : Number.Decimal) : List Char :=
  let point := (Number.digitList d.digits).length + d.exponent
  if -5 < point && point ≤ 16 then
    d.positional ++ (if 0 ≤ d.exponent then ['.', '0'] else [])
  else d.scientific

/-- How reals are written. -/
def realStyle : Number.Style := { tie := .even, form := realDigits }

/-- The text of a real. -/
def realText (x : Float) : String := Number.written realStyle x

/-- The lower-case hexadecimal digit. -/
def hexDigit (n : Nat) : Char := Nat.digitChar n

/-- A character inside a string. -/
def escaped (c : Char) : List Char :=
  if c == '"' then ['\\', '"']
  else if c == '\\' then ['\\', '\\']
  else if c == '\n' then ['\\', 'n']
  else if c == '\r' then ['\\', 'r']
  else if c == '\t' then ['\\', 't']
  else if c == '\x08' then ['\\', 'b']
  else if c == '\x0c' then ['\\', 'f']
  else if c.toNat < 0x20 then
    ['\\', 'u', '0', '0', hexDigit (c.toNat / 16), hexDigit (c.toNat % 16)]
  else [c]

/-- A string with its quotes. -/
def quoted (s : String) : String := String.ofList ('"' :: s.toList.flatMap escaped ++ ['"'])

mutual

/-- A value on one line. -/
def compact : Json → String
  | null => "null"
  | bool b => if b then "true" else "false"
  | integer i => Number.integerText i
  | real x => realText x
  | string s => quoted s
  | array items => "[" ++ String.intercalate "," (compactItems items) ++ "]"
  | object members => "\x7b" ++ String.intercalate "," (compactMembers members) ++ "\x7d"

/-- The items of an array. -/
def compactItems : List Json → List String
  | [] => []
  | item :: rest => compact item :: compactItems rest

/-- The members of an object. -/
def compactMembers : List (String × Json) → List String
  | [] => []
  | (name, value) :: rest => (quoted name ++ ":" ++ compact value) :: compactMembers rest

end

/-- Lines between an opening and a closing bracket, each after a line end and `depth` levels of
blanks; nothing between the brackets when there is no line. -/
def indented (opening closing : String) (depth : Nat) (lines : List String) : String :=
  if lines.isEmpty then opening ++ closing
  else
    let margin (depth : Nat) : String := "\n" ++ "".pushn ' ' (2 * depth)
    opening ++ margin (depth + 1) ++ String.intercalate ("," ++ margin (depth + 1)) lines
      ++ margin depth ++ closing

mutual

/-- A value on several lines, `depth` levels in. -/
def prettyAt (depth : Nat) : Json → String
  | array items => indented "[" "]" depth (prettyItems (depth + 1) items)
  | object members => indented "\x7b" "\x7d" depth (prettyMembers (depth + 1) members)
  | json => compact json

/-- The items of an array. -/
def prettyItems (depth : Nat) : List Json → List String
  | [] => []
  | item :: rest => prettyAt depth item :: prettyItems depth rest

/-- The members of an object. -/
def prettyMembers (depth : Nat) : List (String × Json) → List String
  | [] => []
  | (name, value) :: rest =>
    (quoted name ++ ": " ++ prettyAt depth value) :: prettyMembers depth rest

end

/-- A value on several lines. -/
def pretty (json : Json) : String := prettyAt 0 json

end SheetScript.Json
