import SheetScript.Number.Notation
import SheetScript.Program.Basic

/-!
# The text of an expression

`Expr.text` writes an expression with every operator of two operands in parentheses, so that the
text shows how the expression is built. Strings are written between double quotes as they are.
-/

namespace SheetScript

namespace Expr

mutual

/-- The text of an expression. -/
def text : Expr → String
  | number value => Number.positional value
  | string value => "\"" ++ value ++ "\""
  | bool value => if value then "true" else "false"
  | null => "null"
  | .variable name => name
  | binary op left right => "(" ++ left.text ++ " " ++ op.symbol ++ " " ++ right.text ++ ")"
  | logical op left right => "(" ++ left.text ++ " " ++ op.symbol ++ " " ++ right.text ++ ")"
  | unary .negate operand => "-" ++ operand.text
  | unary .not operand => "not " ++ operand.text
  | call callee args => callee.text ++ "(" ++ String.intercalate ", " (texts args) ++ ")"
  | property object name => object.text ++ "." ++ name
  | index object position => object.text ++ "[" ++ position.text ++ "]"
  | array items => "[" ++ String.intercalate ", " (texts items) ++ "]"
  | map entries => "\x7b" ++ String.intercalate ", " (entryTexts entries) ++ "\x7d"

/-- The texts of several expressions. -/
def texts : List Expr → List String
  | [] => []
  | e :: rest => e.text :: texts rest

/-- The texts of the entries of a map. -/
def entryTexts : List (String × Expr) → List String
  | [] => []
  | (key, value) :: rest => (key ++ ": " ++ value.text) :: entryTexts rest

end

end Expr

end SheetScript
