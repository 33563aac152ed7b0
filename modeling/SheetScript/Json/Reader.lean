import SheetScript.Json.Number

/-!
# Reading JSON

`Json.read?` reads a text that is one JSON value, with blanks around it, and nothing else. Values
are nested at most `depthLimit` deep. A surrogate that is not one of a pair, a control character in
a string and a number that no double holds are refused.

A reader takes the characters ahead and gives back what it read with those that follow. Nesting is
bounded by the depth that is left; a list of items, members or characters by the characters ahead.
-/

namespace SheetScript.Json

/-- A reader: what it read and the characters that follow, if it can read. -/
abbrev Reader (α : Type) := List Char → Option (α × List Char)

/-- Arrays and objects are nested at most this deep. -/
def depthLimit : Nat := 127

/-- The blanks of JSON. -/
def isGap (c : Char) : Bool := c == ' ' || c == '\n' || c == '\t' || c == '\r'

/-- The characters after the blanks. -/
def skipGap (cs : List Char) : List Char := cs.dropWhile isGap

/-- The characters after the given ones. -/
def expect? (text : List Char) (cs : List Char) : Option (List Char) :=
  if text.isPrefixOf cs then some (cs.drop text.length) else none

/-- The value of a hexadecimal digit. -/
def hexDigit? (c : Char) : Option Nat :=
  if '0' ≤ c && c ≤ '9' then some (c.toNat - '0'.toNat)
  else if 'a' ≤ c && c ≤ 'f' then some (c.toNat - 'a'.toNat + 10)
  else if 'A' ≤ c && c ≤ 'F' then some (c.toNat - 'A'.toNat + 10)
  else none

/-- Four hexadecimal digits. -/
def readUnit : Reader Nat
  | a :: b :: c :: d :: rest => do
    let a ← hexDigit? a
    let b ← hexDigit? b
    let c ← hexDigit? c
    let d ← hexDigit? d
    return (((a * 16 + b) * 16 + c) * 16 + d, rest)
  | _ => none

/-- The character of one unit, or of a pair of surrogates. -/
def readCodePoint : Reader Char := fun cs => do
  let (high, rest) ← readUnit cs
  if 0xdc00 ≤ high && high ≤ 0xdfff then none
  else if 0xd800 ≤ high && high ≤ 0xdbff then
    let rest ← expect? ['\\', 'u'] rest
    let (low, rest) ← readUnit rest
    if 0xdc00 ≤ low && low ≤ 0xdfff then
      return (Char.ofNat (0x10000 + (high - 0xd800) * 0x400 + (low - 0xdc00)), rest)
    else none
  else return (Char.ofNat high, rest)

/-- The character after a backslash. -/
def readEscape : Reader Char
  | '"' :: rest => some ('"', rest)
  | '\\' :: rest => some ('\\', rest)
  | '/' :: rest => some ('/', rest)
  | 'b' :: rest => some ('\x08', rest)
  | 'f' :: rest => some ('\x0c', rest)
  | 'n' :: rest => some ('\n', rest)
  | 'r' :: rest => some ('\r', rest)
  | 't' :: rest => some ('\t', rest)
  | 'u' :: rest => readCodePoint rest
  | _ => none

/-- The characters of a string up to its closing quote, at most `room` of them; those before in
reverse. -/
def readChars (room : Nat) (before : List Char) (cs : List Char) : Option (String × List Char) :=
  match room, cs with
  | _, '"' :: rest => some (String.ofList before.reverse, rest)
  | room + 1, '\\' :: rest =>
    match readEscape rest with
    | some (c, rest) => readChars room (c :: before) rest
    | none => none
  | room + 1, c :: rest => if c.toNat < 0x20 then none else readChars room (c :: before) rest
  | _, _ => none

/-- A string after its opening quote. -/
def readString : Reader String := fun cs => readChars cs.length [] cs

/-- At least one digit. -/
def readDigits : Reader (List Char) := fun cs =>
  let (digits, rest) := cs.span Text.isDecimalDigit
  if digits.isEmpty then none else some (digits, rest)

/-- The digits after a point, if there is one. -/
def readFraction : Reader (List Char)
  | '.' :: rest => readDigits rest
  | rest => some ([], rest)

/-- The power of ten, if one is written. -/
def readPower : Reader (Option Int)
  | [] => some (none, [])
  | c :: rest =>
    if c == 'e' || c == 'E' then do
      let (negative, rest) := Number.readSign rest
      let (digits, rest) ← readDigits rest
      let power : Int := Number.digitsValue digits
      return (some (if negative then -power else power), rest)
    else some (none, c :: rest)

/-- A number. Only the number zero starts with the digit zero. -/
def readNumber : Reader Json := fun cs => do
  let (negative, cs) := match cs with
    | '-' :: rest => (true, rest)
    | rest => (false, rest)
  let (whole, rest) ← readDigits cs
  if whole.head? == some '0' && whole.length != 1 then none
  else
    let (fraction, rest) ← readFraction rest
    let (power?, rest) ← readPower rest
    let json ← Numeral.toJson? ⟨negative, whole, fraction, power?⟩
    return (json, rest)

/-- The items of an array after the first, at most `room` of them, up to the closing bracket. -/
def readItems (item : Reader Json) (room : Nat) (before : List Json) (cs : List Char) :
    Option (List Json × List Char) :=
  match room, skipGap cs with
  | _, ']' :: rest => some (before.reverse, rest)
  | room + 1, ',' :: rest =>
    match item rest with
    | some (json, rest) => readItems item room (json :: before) rest
    | none => none
  | _, _ => none

/-- A name, a colon and a value. -/
def readMember (item : Reader Json) : Reader (String × Json) := fun cs => do
  let rest ← expect? ['"'] (skipGap cs)
  let (name, rest) ← readString rest
  let rest ← expect? [':'] (skipGap rest)
  let (json, rest) ← item rest
  return ((name, json), rest)

/-- The members of an object after the first, at most `room` of them, up to the closing brace. -/
def readMembers (item : Reader Json) (room : Nat) (before : List (String × Json))
    (cs : List Char) : Option (List (String × Json) × List Char) :=
  match room, skipGap cs with
  | _, '}' :: rest => some (before.reverse, rest)
  | room + 1, ',' :: rest =>
    match readMember item rest with
    | some (pair, rest) => readMembers item room (pair :: before) rest
    | none => none
  | _, _ => none

/-- An array after its opening bracket. -/
def readArray (item : Reader Json) : Reader Json := fun cs =>
  match skipGap cs with
  | ']' :: rest => some (.array [], rest)
  | cs => do
    let (first, rest) ← item cs
    let (items, rest) ← readItems item rest.length [first] rest
    return (.array items, rest)

/-- An object after its opening brace. -/
def readObject (item : Reader Json) : Reader Json := fun cs =>
  match skipGap cs with
  | '}' :: rest => some (.object [], rest)
  | cs => do
    let (first, rest) ← readMember item cs
    let (members, rest) ← readMembers item rest.length [first] rest
    return (ofMembers members, rest)

/-- A value that is no array and no object. -/
def readScalar : Reader Json := fun cs =>
  match cs with
  | '"' :: rest => (readString rest).map fun (s, rest) => (.string s, rest)
  | 'n' :: rest => (expect? "ull".toList rest).map fun rest => (.null, rest)
  | 't' :: rest => (expect? "rue".toList rest).map fun rest => (.bool true, rest)
  | 'f' :: rest => (expect? "alse".toList rest).map fun rest => (.bool false, rest)
  | _ => readNumber cs

/-- A value with arrays and objects nested at most `depth` deep. -/
def readValue (depth : Nat) (cs : List Char) : Option (Json × List Char) :=
  match depth, skipGap cs with
  | 0, '[' :: _ => none
  | 0, '{' :: _ => none
  | depth + 1, '[' :: rest => readArray (readValue depth) rest
  | depth + 1, '{' :: rest => readObject (readValue depth) rest
  | _, cs => readScalar cs

/-- Read a text that is one value. -/
def read? (text : String) : Option Json :=
  match readValue depthLimit text.toList with
  | some (json, rest) => if (skipGap rest).isEmpty then some json else none
  | none => none

end SheetScript.Json
