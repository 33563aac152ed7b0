import SheetScript.Error
import SheetScript.Number.Remainder
import SheetScript.Value.Basic

/-!
# Operators on values

`Operator.apply` gives the value of an operator for two values. Equality takes any values. Numbers
have all operators; texts can be joined and compared, arrays can be joined, and a text takes the
text of anything. All else is a type error.
-/

namespace SheetScript

namespace Operator

/-- The value of an operator for two numbers. -/
def onNumbers (op : Operator) (a b : Float) : Value :=
  match op with
  | add => .number (a + b)
  | subtract => .number (a - b)
  | multiply => .number (a * b)
  | divide => .number (a / b)
  | floorDivide => .number (a / b).floor
  | modulo => .number (Number.floorMod a b)
  | power => .number (a.pow b)
  | less => .bool (a < b)
  | greater => .bool (b < a)
  | lessEqual => .bool (a ≤ b)
  | greaterEqual => .bool (b ≤ a)
  | equal => .bool (a == b)
  | notEqual => .bool (a != b)

/-- The value of an operator for two texts, if it has one. -/
def onTexts? (op : Operator) (a b : String) : Option Value :=
  match op with
  | add => some (.string (a ++ b))
  | less => some (.bool (a < b))
  | greater => some (.bool (b < a))
  | lessEqual => some (.bool (!(b < a : Bool)))
  | greaterEqual => some (.bool (!(a < b : Bool)))
  | _ => none

/-- The joined values, if two values can be joined. -/
def join? (left right : Value) : Option Value :=
  match left, right with
  | .string a, other => some (.string (a ++ other.display))
  | other, .string b => some (.string (other.display ++ b))
  | .array as, .array bs => some (.array (as ++ bs))
  | _, _ => none

/-- The operator does not take these values. -/
def mismatch (op : Operator) (left right : Value) : ScriptError :=
  .type (.wrongOperands op left.typeName right.typeName)

/-- The value of an operator for two values. -/
def apply (op : Operator) (left right : Value) : Except ScriptError Value :=
  match op with
  | equal => .ok (.bool (left.looseEq right))
  | notEqual => .ok (.bool (!left.looseEq right))
  | op =>
    let value? := match left, right with
      | .number a, .number b => some (op.onNumbers a b)
      | .string a, .string b => op.onTexts? a b
      | left, right => if op == add then join? left right else none
    match value? with
    | some value => .ok value
    | none => .error (op.mismatch left right)

end Operator

/-- The value of an operator with one operand. -/
def Unary.apply (op : Unary) (operand : Value) : Except ScriptError Value :=
  match op with
  | negate =>
    match operand with
    | .number x => .ok (.number (-x))
    | other => .error (.type (.notNegatable other.typeName))
  | not => .ok (.bool (!operand.truthy))

end SheetScript
