/-!
# Tokens

A token is a kind, the text it was read from and the position of its first character. Words,
operators, brackets and the layout of lines carry nothing but which one they are, so they are one
type of `Mark`s; the other kinds carry a number, a text or the fault that the source has there.
-/

namespace SheetScript

/-- A token that is fixed by its spelling or by the layout. -/
inductive Mark where
  -- words
  | ifWord | elseWord | forWord | inWord | returnWord
  | andWord | orWord | notWord | trueWord | falseWord | nullWord
  -- arithmetic
  | plus | minus | star | power | slash | floorSlash | percent
  -- comparison
  | equal | notEqual | less | greater | lessEqual | greaterEqual
  -- assignment
  | assign | plusAssign | minusAssign | starAssign | slashAssign
  -- delimiters
  | leftParen | rightParen | leftBrace | rightBrace | leftBracket | rightBracket
  | semicolon | comma | dot | colon
  -- layout
  /-- The end of a line that holds something. -/
  | newline
  /-- The next line is further in. -/
  | indent
  /-- A level of indentation ends. -/
  | dedent
  | endOfInput
  deriving DecidableEq, Repr, Inhabited

/-- What is wrong at a place of a source. -/
inductive Fault where
  /-- A line is further out than the line before, but at no level that is open. -/
  | inconsistentIndentation
  /-- A string does not end on its line. -/
  | unterminatedString
  /-- No token starts with this character. -/
  | unexpectedCharacter (c : Char)
  deriving DecidableEq, Repr, Inhabited

/-- The text of a fault. -/
def Fault.message : Fault → String
  | inconsistentIndentation => "inconsistent indentation"
  | unterminatedString => "Unterminated string"
  | unexpectedCharacter c => "Unexpected character: " ++ String.singleton c

namespace Token

/-- What a token is. -/
inductive Kind where
  | number (value : Float)
  /-- A string literal, without quotes and escapes. -/
  | string (value : String)
  /-- A name that is no word of the language. -/
  | name (value : String)
  | mark (m : Mark)
  /-- No token: the source is faulty here. -/
  | fault (f : Fault)
  deriving DecidableEq, Repr, Inhabited

/-- Whether the kind is the mark. -/
def Kind.isMark (kind : Kind) (m : Mark) : Bool :=
  match kind with
  | mark n => n == m
  | _ => false

end Token

/-- A token with its text and position. -/
structure Token where
  kind : Token.Kind
  text : String
  line : Nat
  column : Nat
  deriving DecidableEq, Repr, Inhabited

namespace Mark

/-- The marks of the layout. -/
def isLayout : Mark → Bool
  | newline | indent | dedent | endOfInput => true
  | _ => false

/-- The words of the language. -/
def words : List (String × Mark) :=
  [("if", ifWord), ("else", elseWord), ("for", forWord), ("in", inWord), ("return", returnWord),
    ("and", andWord), ("or", orWord), ("not", notWord), ("true", trueWord), ("false", falseWord),
    ("null", nullWord)]

/-- Operators and delimiters of two characters. -/
def pairs : List ((Char × Char) × Mark) :=
  [(('+', '='), plusAssign), (('-', '='), minusAssign), (('*', '*'), power),
    (('*', '='), starAssign), (('/', '/'), floorSlash), (('/', '='), slashAssign),
    (('=', '='), equal), (('!', '='), notEqual), (('<', '='), lessEqual),
    (('>', '='), greaterEqual), (('&', '&'), andWord), (('|', '|'), orWord)]

/-- Operators and delimiters of one character. -/
def singles : List (Char × Mark) :=
  [('+', plus), ('-', minus), ('*', star), ('/', slash), ('%', percent), ('=', assign),
    ('!', notWord), ('<', less), ('>', greater), ('(', leftParen), (')', rightParen),
    ('[', leftBracket), (']', rightBracket), ('\x7b', leftBrace), ('\x7d', rightBrace),
    (';', semicolon), (',', comma), ('.', dot), (':', colon)]

/-- The mark that a name spells, if it is a word of the language. -/
def ofWord? (name : String) : Option Mark := words.lookup name

/-- The brackets that open. -/
def opens : Mark → Bool
  | leftParen | leftBrace | leftBracket => true
  | _ => false

/-- The brackets that close. -/
def closes : Mark → Bool
  | rightParen | rightBrace | rightBracket => true
  | _ => false

end Mark

end SheetScript
