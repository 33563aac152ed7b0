import SheetScript.Text.Cursor
import SheetScript.Token.Lexeme

/-!
# From a source to its tokens

The lexer never fails: what is no token becomes a `Fault`. Between the lexemes it puts the layout
of the source.

* A line that holds something is measured: a blank is one wide, a tabulator goes to the next
  multiple of four, and a carriage return has no width. A line further in than the last opens one
  level (`indent`); a line further out closes the levels beyond it (`dedent`).
* The end of such a line is a `newline`. Lines without a lexeme and lines inside brackets have no
  layout.
* At the end the last line and the open levels are closed, and then `endOfInput` comes, again and
  again.

`Lexer.step` reads at most one token, `Lexer.next` reads exactly one, and `tokenize` reads a whole
source. A step that reads no token has passed a line end, so the characters ahead bound them.
-/

namespace SheetScript.Token

open Text (Cursor)

/-- Where the lexer stands in a source. -/
structure Lexer where
  cursor : Cursor
  /-- The widths of the open levels, the innermost first. -/
  levels : List Nat
  /-- How many brackets are open. -/
  brackets : Nat
  /-- Whether the line that starts here has still to be measured. -/
  atLineStart : Bool
  /-- Tokens that come before anything else is read. -/
  pending : List Token
  /-- Whether a lexeme has been read. -/
  started : Bool
  /-- Whether no lexeme has been read since the last `newline`. -/
  lineEnded : Bool
  /-- Whether the levels open at the end of the source have been closed. -/
  closed : Bool
  deriving Repr, Inhabited

/-! ## Layout -/

/-- How far a tabulator reaches. -/
def tabWidth : Nat := 4

/-- The characters in front of a line that are measured. -/
def inMargin (c : Char) : Bool := c == ' ' || c == '\t' || c == '\r'

/-- The width after one more character of a margin. -/
def widen (width : Nat) (c : Char) : Nat :=
  if c == ' ' then width + 1
  else if c == '\t' then width + (tabWidth - width % tabWidth)
  else width

/-- How many characters the lines take that hold a margin and a comment at most. `start` counts the
characters before the line that is read, `count` those read; the end of the source is reached when
no line holds more. -/
def idleLength (start count : Nat) (comment : Bool) : List Char → Nat
  | [] => count
  | '\n' :: rest => idleLength (count + 1) (count + 1) false rest
  | c :: rest =>
    if comment || c == '#' then idleLength start (count + 1) true rest
    else if inMargin c then idleLength start (count + 1) false rest
    else start

/-- How many characters stand before the next lexeme of a line: blanks, a comment, and a line end
that follows a backslash or stands inside brackets. -/
def gapLength (bracketed : Bool) (count : Nat) (comment : Bool) : List Char → Nat
  | [] => count
  | '\n' :: rest => if bracketed then gapLength bracketed (count + 1) false rest else count
  | '\\' :: '\n' :: rest =>
    if comment then
      if bracketed then gapLength bracketed (count + 2) false rest else count + 1
    else gapLength bracketed (count + 2) false rest
  | c :: rest =>
    if comment || c == '#' then gapLength bracketed (count + 1) true rest
    else if Text.isBlank c then gapLength bracketed (count + 1) false rest
    else count

/-- Close the levels wider than a line: how many there are, and the levels left. -/
def closeLevels (width : Nat) : List Nat → Nat × List Nat
  | [] => (0, [])
  | level :: levels =>
    if width < level then
      let (count, left) := closeLevels width levels
      (count + 1, left)
    else (0, level :: levels)

namespace Lexer

/-- The start of a source. -/
def ofList (cs : List Char) : Lexer where
  cursor := Cursor.ofList cs
  levels := []
  brackets := 0
  atLineStart := true
  pending := []
  started := false
  lineEnded := false
  closed := false

/-- A token at the cursor. -/
def tokenHere (l : Lexer) (kind : Kind) (text : String) : Token :=
  ⟨kind, text, l.cursor.line, l.cursor.column⟩

/-- A mark of the layout at the cursor. -/
def layoutHere (l : Lexer) (m : Mark) : Token := l.tokenHere (.mark m) ""

/-- The width of the innermost level. -/
def width (l : Lexer) : Nat := l.levels.head?.getD 0

/-- Step over so many characters. -/
def advance (l : Lexer) (count : Nat) : Lexer := { l with cursor := l.cursor.advance count }

/-- Open a level for a line further in, or close the levels of a line further out. -/
def indentTo (l : Lexer) (width : Nat) : Lexer :=
  if l.width < width then
    { l with levels := width :: l.levels, pending := [l.layoutHere .indent] }
  else
    let (count, levels) := closeLevels width l.levels
    let dedents := List.replicate count (l.layoutHere .dedent)
    let fault :=
      if levels.head?.getD 0 == width then []
      else [l.tokenHere (.fault .inconsistentIndentation) ""]
    { l with levels := levels, pending := dedents ++ fault }

/-- Measure the next line that holds something. -/
def measureLine (l : Lexer) : Lexer :=
  let l := { l.advance (idleLength 0 0 false l.cursor.rest) with atLineStart := false }
  let margin := l.cursor.rest.takeWhile inMargin
  let l := l.advance margin.length
  if l.cursor.rest.isEmpty then l else l.indentTo (margin.foldl widen 0)

/-- Note that a token has been read. -/
def note (l : Lexer) : Kind → Lexer
  | .mark .newline => { l with lineEnded := true }
  | .mark .indent | .mark .dedent | .mark .endOfInput => l
  | .mark m =>
    { l with
      started := true
      lineEnded := false
      brackets := if m.opens then l.brackets + 1
        else if m.closes then l.brackets - 1
        else l.brackets }
  | _ => { l with started := true, lineEnded := false }

/-- Take a token that is pending. -/
def takePending (l : Lexer) : Option (Token × Lexer) :=
  match l.pending with
  | [] => none
  | token :: rest => some (token, { l with pending := rest }.note token.kind)

/-- The end of the source: close the last line and the open levels once, then stay. -/
def finish (l : Lexer) : Token × Lexer :=
  let l :=
    if l.closed then l
    else
      let line := if l.started && !l.lineEnded then [l.layoutHere .newline] else []
      { l with
        closed := true
        pending := line ++ l.levels.map fun _ => l.layoutHere .dedent
        levels := [] }
  l.takePending.getD (l.layoutHere .endOfInput, l)

/-- Read at most one token: a pending one, the layout of a line, a lexeme, a line end or the end
of the source. The end of a line that holds nothing is no token. -/
def step (l : Lexer) : Option Token × Lexer :=
  let l := if l.pending.isEmpty && l.atLineStart && l.brackets == 0 then l.measureLine else l
  match l.takePending with
  | some (token, l) => (some token, l)
  | none =>
    let l := l.advance (gapLength (l.brackets != 0) 0 false l.cursor.rest)
    match l.cursor.rest with
    | [] => let (token, l) := l.finish; (some token, l)
    | '\n' :: _ =>
      let next := { l.advance 1 with atLineStart := true }
      if !l.started || l.lineEnded then (none, next)
      else (some (l.tokenHere (.mark .newline) "\\n"), next.note (.mark .newline))
    | c :: rest =>
      let lexeme := Lexeme.ofCons c rest
      (some (l.tokenHere lexeme.kind lexeme.text), (l.advance lexeme.length).note lexeme.kind)

/-- Read the next token, past at most `room` lines that hold nothing. -/
def nextWithin : Nat → Lexer → Token × Lexer
  | 0, l => l.finish
  | room + 1, l =>
    match l.step with
    | (some token, l) => (token, l)
    | (none, l) => nextWithin room l

/-- Read the next token. -/
def next (l : Lexer) : Token × Lexer := nextWithin (l.cursor.rest.length + 1) l

/-- Read tokens in at most `room` steps until `endOfInput`; the tokens before in reverse. -/
def runWithin : Nat → List Token → Lexer → List Token × Lexer
  | 0, before, l => (before.reverse, l)
  | room + 1, before, l =>
    match l.step with
    | (none, l) => runWithin room before l
    | (some token, l) =>
      if token.kind.isMark .endOfInput then ((token :: before).reverse, l)
      else runWithin room (token :: before) l

/-- More steps than a source has: two for each character, for the levels it may open, and the
closing ones. -/
def stepBound (cs : List Char) : Nat := 2 * cs.length + 4

/-- All tokens of a source up to `endOfInput`, and where the lexer stands then. -/
def run (cs : List Char) : List Token × Lexer := runWithin (stepBound cs) [] (ofList cs)

end Lexer

/-- The tokens of a source; the last one is `endOfInput`. -/
def tokenize (source : String) : List Token := (Lexer.run source.toList).1

end SheetScript.Token
