import SheetScript.Number.Notation
import SheetScript.Program.Basic
import SheetScript.Token.Basic

/-!
# What can go wrong with a script

`ScriptError` lists the causes: a source that is no program, and everything that ends a run. Each
cause carries what its message names, and `ScriptError.message` is the wording.
-/

namespace SheetScript

/-! ## Sources that are no programs -/

/-- What a source lacks, or has too much of. -/
inductive Complaint where
  | unexpectedToken
  | unexpectedIndentation
  | missingParameter
  | duplicateParameter (name : String)
  | unclosedParameters
  | missingLoopVariable
  | missingIn
  | missingColon
  | missingIndentedBlock
  | unterminatedBlock
  | invalidTarget
  | unendedStatement
  | unclosedArguments
  | missingProperty
  | unclosedIndex
  | unclosedParenthesis
  | unclosedArray
  | missingKey
  | missingKeyColon
  | unclosedMap
  /-- Expressions and blocks are nested deeper than allowed. -/
  | tooDeep (limit : Nat)
  deriving DecidableEq, Repr, Inhabited

/-- The wording of a complaint. -/
def Complaint.text : Complaint → String
  | unexpectedToken => "Unexpected token"
  | unexpectedIndentation => "Unexpected indentation"
  | missingParameter => "Expected parameter name"
  | duplicateParameter name => "Duplicate parameter '" ++ name ++ "'"
  | unclosedParameters => "Expected ')' after parameters"
  | missingLoopVariable => "Expected loop variable after 'for'"
  | missingIn => "Expected 'in' after loop variable"
  | missingColon => "Expected ':' before block"
  | missingIndentedBlock => "Expected an indented block"
  | unterminatedBlock => "Unterminated block"
  | invalidTarget => "Invalid assignment target"
  | unendedStatement => "Expected end of statement"
  | unclosedArguments => "Expected ')' after arguments"
  | missingProperty => "Expected property name after '.'"
  | unclosedIndex => "Expected ']' after index"
  | unclosedParenthesis => "Expected ')' after expression"
  | unclosedArray => "Expected ']' after array elements"
  | missingKey => "Expected map key"
  | missingKeyColon => "Expected ':' after map key"
  | unclosedMap => "Expected '\x7d' after map entries"
  | tooDeep limit => "Nesting deeper than " ++ Number.integerText limit ++ " levels"

/-- The token that a complaint is about. -/
inductive Found where
  | endOfInput | endOfLine | indent | dedent
  | text (text : String)
  deriving DecidableEq, Repr, Inhabited

namespace Found

/-- How a complaint names a token. -/
def ofToken (t : Token) : Found :=
  match t.kind with
  | .mark .endOfInput => endOfInput
  | .mark .newline => endOfLine
  | .mark .indent => indent
  | .mark .dedent => dedent
  | _ => text t.text

/-- The wording of what was found. -/
def wording : Found → String
  | endOfInput => "end of input"
  | endOfLine => "end of line"
  | indent => "indent"
  | dedent => "dedent"
  | text t => "'" ++ t ++ "'"

end Found

/-- Why a source is no program. -/
inductive ParseProblem where
  /-- The source has a character or a line that is no token. -/
  | fault (f : Fault)
  /-- The tokens are no program. -/
  | complaint (c : Complaint) (found : Found)
  deriving DecidableEq, Repr, Inhabited

/-- The wording of a parse problem. -/
def ParseProblem.text : ParseProblem → String
  | fault f => f.message
  | complaint c found => c.text ++ ", found " ++ found.wording

/-! ## Values that do not fit -/

/-- A value of the wrong kind; the kinds are named by their type names. -/
inductive TypeProblem where
  | notIterable (type : String)
  | notNegatable (type : String)
  | wrongOperands (op : Operator) (left right : String)
  | notIndexable (type : String)
  /-- The value, as displayed, that stands where an array wants an integer. -/
  | notAnIndex (shown : String)
  | notWritable (type : String)
  /-- An assignment to a name that the language or the host has taken. -/
  | reservedName (name : String)
  /-- An assignment into something, shown as an expression, that is no variable. -/
  | notAssignable (expression : String)
  | notANumber (function type : String)
  | notAChartName (type : String)
  /-- An attribute whose value, as displayed, is no number. -/
  | notNumeric (name shown : String)
  deriving DecidableEq, Repr, Inhabited

/-- The wording of a type problem. -/
def TypeProblem.text : TypeProblem → String
  | notIterable type => "Cannot iterate over " ++ type
  | notNegatable type => "Cannot negate " ++ type
  | wrongOperands op left right =>
    "Cannot apply '" ++ op.symbol ++ "' to " ++ left ++ " and " ++ right
  | notIndexable type => "Cannot index into " ++ type
  | notAnIndex shown => "Array index must be an integer, got " ++ shown
  | notWritable type => "Cannot assign into " ++ type
  | reservedName name => "Cannot assign to built-in '" ++ name ++ "'"
  | notAssignable expression => "Cannot assign to " ++ expression
  | notANumber function type => function ++ "() expects a number, got " ++ type
  | notAChartName type => "Chart() expects a chart name, got " ++ type
  | notNumeric name shown => "Attribute '" ++ name ++ "' is not numeric (" ++ shown ++ ")"

/-- Something the host does not have, or a refusal of the host. -/
inductive HostProblem where
  | noChart (name : String)
  | noAttribute (name : String)
  | refusal (text : String)
  deriving DecidableEq, Repr, Inhabited

/-- The wording of a host problem. -/
def HostProblem.text : HostProblem → String
  | noChart name => "Chart '" ++ name ++ "' not found"
  | noAttribute name => "Attribute '" ++ name ++ "' not found"
  | refusal text => text

/-! ## All causes -/

/-- Why a script could not be run to its end. -/
inductive ScriptError where
  | parse (problem : ParseProblem) (line column : Nat)
  | host (problem : HostProblem)
  | undefinedVariable (name : String)
  | notCallable (description : String)
  | arity (name : String) (expected got : Nat)
  | type (problem : TypeProblem)
  | indexOutOfRange (index : Int) (length : Nat)
  | unknownMethod (receiver method : String)
  /-- More calls are active than allowed. -/
  | stackOverflow (limit : Nat)
  /-- More loop steps were started than allowed. -/
  | iterationLimit (limit : Nat)
  /-- A subscription without a script to subscribe. -/
  | noScriptContext
  /-- The data of a chart is no grid. -/
  | chartData (chart : String)
  | columnNotFound (chart column : String)
  | emptyChart (chart : String)
  deriving DecidableEq, Repr, Inhabited

/-- The wording of an error. -/
def ScriptError.message : ScriptError → String
  | parse problem line column =>
    "Parse error at line " ++ Number.integerText line ++ ", column " ++ Number.integerText column
      ++ ": " ++ problem.text
  | host problem => "Runtime error: " ++ problem.text
  | undefinedVariable name => "Undefined variable: " ++ name
  | notCallable description => "Not callable: " ++ description
  | arity name expected got =>
    name ++ " expects " ++ Number.integerText expected ++ " argument(s) but got "
      ++ Number.integerText got
  | type problem => "Type error: " ++ problem.text
  | indexOutOfRange index length =>
    "Index " ++ Number.integerText index ++ " out of range for array of length "
      ++ Number.integerText length
  | unknownMethod receiver method => "Unknown method '" ++ method ++ "' on " ++ receiver
  | stackOverflow limit => "Stack overflow: call depth exceeded " ++ Number.integerText limit
  | iterationLimit limit => "Loop iteration limit of " ++ Number.integerText limit ++ " exceeded"
  | noScriptContext => "subscribe() called with no current script"
  | chartData chart => "Chart '" ++ chart ++ "' has malformed data: expected an array of arrays"
  | columnNotFound chart column => "Column '" ++ column ++ "' not found in chart '" ++ chart ++ "'"
  | emptyChart chart => "Chart '" ++ chart ++ "' has no data rows"

end SheetScript
