/-!
# A place in a text

A `Cursor` is the characters still ahead together with the line and column of the first of them,
both counted from 1. A line ends at a line feed and nowhere else. `Cursor.advance` steps over the
characters one by one, so a cursor's position is a function of what it has passed.
-/

namespace SheetScript.Text

/-- The characters ahead and the position of the first. -/
structure Cursor where
  rest : List Char
  line : Nat
  column : Nat
  deriving Repr, DecidableEq, Inhabited

namespace Cursor

/-- The start of a text. -/
def ofList (cs : List Char) : Cursor := ⟨cs, 1, 1⟩

/-- Step over one character. -/
def step (c : Cursor) : Cursor :=
  match c.rest with
  | [] => c
  | '\n' :: rest => ⟨rest, c.line + 1, 1⟩
  | _ :: rest => ⟨rest, c.line, c.column + 1⟩

/-- Step over so many characters. -/
def advance : Nat → Cursor → Cursor
  | 0, c => c
  | count + 1, c => advance count c.step

end Cursor

end SheetScript.Text
