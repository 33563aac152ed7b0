/-!
# Programs

The tree of a script: expressions, statements with the line they start on, and the program, which
is a list of statements. The tree is plain data and knows nothing of tokens or of a run.

* `Program.function?` is the function that a program declares at its top level under a name.
-/

namespace SheetScript

/-- The operators that take the values of both operands. -/
inductive Operator where
  | add | subtract | multiply | divide | floorDivide | modulo | power
  | equal | notEqual | less | greater | lessEqual | greaterEqual
  deriving DecidableEq, Repr, Inhabited

/-- The spelling of an operator. -/
def Operator.symbol : Operator → String
  | add => "+"
  | subtract => "-"
  | multiply => "*"
  | divide => "/"
  | floorDivide => "//"
  | modulo => "%"
  | power => "**"
  | equal => "=="
  | notEqual => "!="
  | less => "<"
  | greater => ">"
  | lessEqual => "<="
  | greaterEqual => ">="

/-- The operators that may leave their right operand alone. -/
inductive Connective where
  | and | or
  deriving DecidableEq, Repr, Inhabited

/-- The spelling of a connective. -/
def Connective.symbol : Connective → String
  | and => "and"
  | or => "or"

/-- The operators with one operand. -/
inductive Unary where
  | negate | not
  deriving DecidableEq, Repr, Inhabited

/-- An expression. -/
inductive Expr where
  | number (value : Float)
  | string (value : String)
  | bool (value : Bool)
  | null
  | variable (name : String)
  | binary (op : Operator) (left right : Expr)
  | logical (op : Connective) (left right : Expr)
  | unary (op : Unary) (operand : Expr)
  | call (callee : Expr) (args : List Expr)
  | property (object : Expr) (name : String)
  | index (object position : Expr)
  | array (items : List Expr)
  /-- The entries as written: in the order of the source, repeated keys included. -/
  | map (entries : List (String × Expr))
  deriving Repr, Inhabited

/-- What an assignment writes to. -/
inductive Target where
  | variable (name : String)
  | index (object position : Expr)
  deriving Repr, Inhabited

/-- A statement and the line it starts on. -/
inductive Stmt where
  | expression (line : Nat) (value : Expr)
  /-- `target = value`, or `target op= value`. -/
  | assign (line : Nat) (target : Target) (op : Option Operator) (value : Expr)
  /-- The conditions in order, each with its block, and the block for when none holds. -/
  | choose (line : Nat) (branches : List (Expr × List Stmt)) (otherwise : Option (List Stmt))
  /-- A loop over the items of a value. -/
  | loop (line : Nat) (name : String) (items : Expr) (body : List Stmt)
  /-- A function declaration. -/
  | function (line : Nat) (name : String) (params : List String) (body : List Stmt)
  /-- The end of a call, with the value of the call. -/
  | leave (line : Nat) (value : Option Expr)
  deriving Repr, Inhabited

/-- A declared function. -/
structure Function where
  name : String
  params : List String
  body : List Stmt
  /-- The line of the declaration. -/
  line : Nat
  deriving Repr, Inhabited

namespace Stmt

/-- The line a statement starts on. -/
def line : Stmt → Nat
  | expression line _ => line
  | assign line _ _ _ => line
  | choose line _ _ => line
  | loop line _ _ _ => line
  | function line _ _ _ => line
  | leave line _ => line

/-- The function that a statement declares. -/
def function? : Stmt → Option Function
  | function line name params body => some ⟨name, params, body, line⟩
  | _ => none

end Stmt

/-- A whole script. -/
structure Program where
  statements : List Stmt
  deriving Repr, Inhabited

/-- The first function of that name that the top level declares. -/
def Program.function? (p : Program) (name : String) : Option Function :=
  p.statements.findSome? fun stmt => stmt.function?.filter (·.name == name)

end SheetScript
