import SheetScript.Number.Reading
import SheetScript.Text.Blank
import SheetScript.Text.Letter
import SheetScript.Token.Basic

/-!
# Lexemes

What the characters at a place of a source spell, blanks and layout apart. `Lexeme.ofCons c rest`
is the longest lexeme at the front of `c :: rest`, with its kind, its text and how many characters
it takes. The text of a lexeme is those characters, a string apart: its text shows the characters
that the escapes stand for.

* A number is digits with an optional fraction; a fraction alone will do.
* A name starts with a letter or an underscore and goes on with letters, numerals and underscores.
* A string stands between two equal quotes, on one line. A backslash takes the next character as
  it is, even a line feed, but `n`, `t` and `r` stand for a line feed, a tabulator and a carriage
  return.
-/

namespace SheetScript.Token

/-- A kind, its text and the number of characters it takes. -/
structure Lexeme where
  kind : Kind
  text : String
  length : Nat
  deriving Repr, Inhabited

namespace Lexeme

/-- A lexeme whose text is the characters it takes. -/
def plain (kind : Kind) (cs : List Char) : Lexeme := ⟨kind, String.ofList cs, cs.length⟩

/-- The digits after a point at the front. -/
def fractionDigits : List Char → List Char
  | '.' :: rest => rest.takeWhile Text.isDecimalDigit
  | _ => []

/-- The number at the front. -/
def number (cs : List Char) : Lexeme :=
  let whole := cs.takeWhile Text.isDecimalDigit
  let fraction := fractionDigits (cs.dropWhile Text.isDecimalDigit)
  let value := Number.ofDecimal (Number.digitsValue (whole ++ fraction)) (-fraction.length)
  plain (.number value) (whole ++ if fraction.isEmpty then [] else '.' :: fraction)

/-- A character that starts a name. -/
def startsName (c : Char) : Bool := Text.isLetter c || c == '_'

/-- A character inside a name. -/
def inName (c : Char) : Bool := Text.isLetter c || Text.isNumeral c || c == '_'

/-- The name or word at the front. -/
def name (cs : List Char) : Lexeme :=
  let letters := cs.takeWhile inName
  let text := String.ofList letters
  plain (match Mark.ofWord? text with | some m => .mark m | none => .name text) letters

/-- The character that an escape stands for. -/
def unescape (c : Char) : Char :=
  if c == 'n' then '\n' else if c == 't' then '\t' else if c == 'r' then '\r' else c

/-- The end of a string's characters. -/
structure Body where
  /-- The characters that the string stands for. -/
  value : List Char
  /-- Whether the closing quote was found. -/
  closed : Bool
  /-- How many characters were read, the closing quote included. -/
  length : Nat
  deriving Repr

/-- Read a string after its opening quote. `before` holds the characters read so far, last first,
and `length` says how many characters of the source they took. -/
def bodyFrom (quote : Char) (before : List Char) (length : Nat) : List Char → Body
  | [] => ⟨before.reverse, false, length⟩
  | '\\' :: [] => ⟨before.reverse, false, length + 1⟩
  | '\\' :: c :: rest => bodyFrom quote (unescape c :: before) (length + 2) rest
  | c :: rest =>
    if c == quote then ⟨before.reverse, true, length + 1⟩
    else if c == '\n' then ⟨before.reverse, false, length⟩
    else bodyFrom quote (c :: before) (length + 1) rest

/-- The string after an opening quote. -/
def string (quote : Char) (rest : List Char) : Lexeme :=
  let body := bodyFrom quote [] 0 rest
  if body.closed then
    ⟨.string (String.ofList body.value), String.ofList (quote :: body.value ++ [quote]),
      body.length + 1⟩
  else ⟨.fault .unterminatedString, String.ofList body.value, body.length + 1⟩

/-- The operator or delimiter that starts with a character. -/
def symbol (c : Char) (rest : List Char) : Lexeme :=
  let pair? : Option (Char × Mark) := do
    let next ← rest.head?
    let m ← Mark.pairs.lookup (c, next)
    return (next, m)
  match pair? with
  | some (next, m) => plain (.mark m) [c, next]
  | none =>
    match Mark.singles.lookup c with
    | some m => plain (.mark m) [c]
    | none => plain (.fault (.unexpectedCharacter c)) [c]

/-- Whether a digit stands at the front. -/
def digitAhead (cs : List Char) : Bool := cs.head?.any Text.isDecimalDigit

/-- The longest lexeme that starts with a character. -/
def ofCons (c : Char) (rest : List Char) : Lexeme :=
  if Text.isDecimalDigit c || (c == '.' && digitAhead rest) then number (c :: rest)
  else if startsName c then name (c :: rest)
  else if c == '"' || c == '\'' then string c rest
  else symbol c rest

end Lexeme

end SheetScript.Token
