import SheetScript.Error
import SheetScript.Token.Lexer

/-!
# From tokens to a program

`Program.ofTokens?` reads a list of tokens as a program, or says what is wrong with it. The first
problem ends the reading; a fault of the lexer anywhere comes before all others.

From loose to tight, expressions are `or`, `and`, comparisons, sums, products, signs, powers, and
calls with their like. Equal operators group to the left, powers to the right. A block follows a
colon: simple statements on the same line, or an indented suite.

* Expressions in parentheses, brackets and braces, operands of signs, exponents and blocks are
  each one level deeper. `nestingLimit` bounds the levels, and the parsers recurse on those left.
* Lists and chains recurse on the tokens that were ahead of them (`room`): each step of theirs takes
  one.
* `Tokens` keeps the closing `endOfInput` apart, and no parser ever takes it.
-/

namespace SheetScript

/-- The tokens ahead, and the one that closes the list. -/
structure Tokens where
  ahead : List Token
  last : Token
  deriving Repr, Inhabited

namespace Tokens

/-- The `endOfInput` that stands where the last token of a list stands. -/
def closing (tokens : List Token) : Token :=
  match tokens.getLast? with
  | some t => ⟨.mark .endOfInput, "", t.line, t.column⟩
  | none => ⟨.mark .endOfInput, "", 1, 1⟩

/-- A list of tokens, closed by `endOfInput` if it is not closed yet. -/
def ofList (tokens : List Token) : Tokens :=
  match tokens.getLast? with
  | some t => if t.kind.isMark .endOfInput then ⟨tokens.dropLast, t⟩ else ⟨tokens, closing tokens⟩
  | none => ⟨[], closing []⟩

/-- The token at the front. -/
def current (ts : Tokens) : Token := ts.ahead.head?.getD ts.last

/-- The kind of the token at the front. -/
def kind (ts : Tokens) : Token.Kind := ts.current.kind

/-- Whether the mark stands at the front. -/
def at? (ts : Tokens) (m : Mark) : Bool := ts.kind.isMark m

/-- The tokens after the front. -/
def tail (ts : Tokens) : Tokens := { ts with ahead := ts.ahead.drop 1 }

end Tokens

/-- A parser takes tokens from the front or fails. -/
abbrev Parser (α : Type) := StateT Tokens (Except ScriptError) α

namespace Parser

/-- Deepest nesting of expressions and blocks. -/
def nestingLimit : Nat := 64

/-! ## One token -/

/-- Fail at the token at the front. -/
def fail {α : Type} (c : Complaint) : Parser α := fun ts =>
  let t := ts.current
  .error (.parse (.complaint c (Found.ofToken t)) t.line t.column)

/-- The kind of the token at the front. -/
def peek : Parser Token.Kind := fun ts => .ok (ts.kind, ts)

/-- Whether the mark stands at the front. -/
def sees (m : Mark) : Parser Bool := fun ts => .ok (ts.at? m, ts)

/-- Take the token at the front. -/
def skip : Parser Unit := fun ts => .ok ((), ts.tail)

/-- Take the mark if it stands at the front; whether it did. -/
def take (m : Mark) : Parser Bool := fun ts =>
  if ts.at? m then .ok (true, ts.tail) else .ok (false, ts)

/-- Take the mark or fail. -/
def expect (m : Mark) (c : Complaint) : Parser Unit := do
  if !(← take m) then fail c

/-- Take a name or fail. -/
def name (c : Complaint) : Parser String := do
  match ← peek with
  | .name text => skip; return text
  | _ => fail c

/-- The line of the token at the front. -/
def line : Parser Nat := fun ts => .ok (ts.current.line, ts)

/-- The tokens ahead and the closing one, for a list or chain to recurse on: every step of it but
the last takes a token, so it ends before this list does. -/
def room : Parser (List Token) := fun ts => .ok (ts.last :: ts.ahead, ts)

/-! ## Expressions -/

/-- The comparisons. -/
def comparison? : Mark → Option Operator
  | .equal => some .equal
  | .notEqual => some .notEqual
  | .greater => some .greater
  | .greaterEqual => some .greaterEqual
  | .less => some .less
  | .lessEqual => some .lessEqual
  | _ => none

/-- The operators of sums. -/
def sum? : Mark → Option Operator
  | .plus => some .add
  | .minus => some .subtract
  | _ => none

/-- The operators of products. -/
def product? : Mark → Option Operator
  | .star => some .multiply
  | .slash => some .divide
  | .floorSlash => some .floorDivide
  | .percent => some .modulo
  | _ => none

/-- The sign that a token stands for in front of an operand. -/
def unary? : Token.Kind → Option Unary
  | .mark .minus => some .negate
  | .mark .notWord => some .not
  | _ => none

/-- What a token joins two operands to, for a family of operators. -/
def join? (operator? : Mark → Option Operator) : Token.Kind → Option (Expr → Expr → Expr)
  | .mark m => (operator? m).map Expr.binary
  | _ => none

/-- What a token joins two operands to, for one connective. -/
def connect? (m : Mark) (op : Connective) : Token.Kind → Option (Expr → Expr → Expr)
  | .mark n => if n == m then some (Expr.logical op) else none
  | _ => none

/-- Join more operands to the left one, at most one for each token of `room`. -/
def chainFrom (joiner? : Token.Kind → Option (Expr → Expr → Expr)) (operand : Parser Expr) :
    List Token → Expr → Parser Expr
  | [], left => pure left
  | _ :: room, left => do
    match joiner? (← peek) with
    | none => pure left
    | some join =>
      skip
      let right ← operand
      chainFrom joiner? operand room (join left right)

/-- Operands joined from the left. -/
def chain (joiner? : Token.Kind → Option (Expr → Expr → Expr)) (operand : Parser Expr) :
    Parser Expr := do
  let left ← operand
  chainFrom joiner? operand (← room) left

/-- An expression, given its operands with signs. -/
def disjunction (signed : Parser Expr) : Parser Expr :=
  chain (connect? .orWord .or) <| chain (connect? .andWord .and) <|
    chain (join? comparison?) <| chain (join? sum?) <| chain (join? product?) signed

/-- Expressions with commas between them and perhaps one at the end, up to the closing mark, at most
one for each token of `room`; those before in reverse. -/
def itemsFrom (item : Parser Expr) (close : Mark) : List Token → List Expr → Parser (List Expr)
  | [], before => pure before.reverse
  | _ :: room, before => do
    if ← sees close then return before.reverse
    let e ← item
    if ← take .comma then itemsFrom item close room (e :: before)
    else return (e :: before).reverse

/-- Expressions up to the closing mark, which stays. -/
def items (item : Parser Expr) (close : Mark) : Parser (List Expr) := do
  itemsFrom item close (← room) []

/-- The key of an entry of a map. -/
def key : Parser String := do
  match ← peek with
  | .name text => skip; return text
  | .string text => skip; return text
  | _ => fail .missingKey

/-- The entries of a map up to the closing brace, at most one for each token of `room`; those before
in reverse. -/
def entriesFrom (value : Parser Expr) : List Token → List (String × Expr) →
    Parser (List (String × Expr))
  | [], before => pure before.reverse
  | _ :: room, before => do
    if ← sees .rightBrace then return before.reverse
    let k ← key
    expect .colon .missingKeyColon
    let v ← value
    if ← take .comma then entriesFrom value room ((k, v) :: before)
    else return ((k, v) :: before).reverse

/-- An operand by itself, given the expressions inside brackets. -/
def primary (inner : Parser Expr) : Parser Expr := do
  match ← peek with
  | .number value => skip; return .number value
  | .string value => skip; return .string value
  | .name text => skip; return .variable text
  | .mark .trueWord => skip; return .bool true
  | .mark .falseWord => skip; return .bool false
  | .mark .nullWord => skip; return .null
  | .mark .leftParen =>
    skip
    let e ← inner
    expect .rightParen .unclosedParenthesis
    return e
  | .mark .leftBracket =>
    skip
    let es ← items inner .rightBracket
    expect .rightBracket .unclosedArray
    return .array es
  | .mark .leftBrace =>
    skip
    let entries ← entriesFrom inner (← room) []
    expect .rightBrace .unclosedMap
    return .map entries
  | _ => fail .unexpectedToken

/-- Calls, properties and indices of an operand, at most one for each token of `room`. -/
def suffixesFrom (inner : Parser Expr) : List Token → Expr → Parser Expr
  | [], e => pure e
  | _ :: room, e => do
    match ← peek with
    | .mark .leftParen =>
      skip
      let args ← items inner .rightParen
      expect .rightParen .unclosedArguments
      suffixesFrom inner room (.call e args)
    | .mark .dot =>
      skip
      let property ← name .missingProperty
      suffixesFrom inner room (.property e property)
    | .mark .leftBracket =>
      skip
      let position ← inner
      expect .rightBracket .unclosedIndex
      suffixesFrom inner room (.index e position)
    | _ => pure e

/-- An operand with its calls, properties and indices. -/
def suffixed (inner : Parser Expr) : Parser Expr := do
  let e ← primary inner
  suffixesFrom inner (← room) e

/-- An operand with its sign or its exponent, given the parser one level deeper. -/
def signedWith (inner deeper : Parser Expr) : Parser Expr := do
  match unary? (← peek) with
  | some op =>
    skip
    return .unary op (← deeper)
  | none =>
    let base ← suffixed inner
    if ← take .power then return .binary .power base (← deeper)
    else return base

/-- The parser one level deeper when no level is left. -/
def tooDeep {α : Type} : Parser α := fail (.tooDeep nestingLimit)

/-- An operand with its sign or its exponent, `depth` levels being left. -/
def signedAt : Nat → Parser Expr
  | 0 => signedWith tooDeep tooDeep
  | depth + 1 => signedWith (disjunction (signedAt depth)) (signedAt depth)

/-- An expression, `depth` levels being left; it takes one of them. -/
def expressionAt : Nat → Parser Expr
  | 0 => tooDeep
  | depth + 1 => disjunction (signedAt depth)

/-! ## Statements -/

/-- Whether nothing of a statement can follow. -/
def atStatementEnd : Parser Bool := do
  match ← peek with
  | .mark .newline | .mark .semicolon | .mark .endOfInput | .mark .dedent => return true
  | _ => return false

/-- The end of a simple statement. -/
def endStatement : Parser Unit := do
  match ← peek with
  | .mark .newline | .mark .semicolon => skip
  | .mark .endOfInput | .mark .dedent => pure ()
  | _ => fail .unendedStatement

/-- Line ends and semicolons, at most one for each token of `room`. -/
def skipSeparatorsFrom : List Token → Parser Unit
  | [] => pure ()
  | _ :: room => do
    match ← peek with
    | .mark .newline | .mark .semicolon => skip; skipSeparatorsFrom room
    | _ => pure ()

/-- All line ends and semicolons at the front. -/
def skipSeparators : Parser Unit := do skipSeparatorsFrom (← room)

/-- The operator of an assignment: none for `=`. -/
def assignment? : Token.Kind → Option (Option Operator)
  | .mark .assign => some none
  | .mark .plusAssign => some (some .add)
  | .mark .minusAssign => some (some .subtract)
  | .mark .starAssign => some (some .multiply)
  | .mark .slashAssign => some (some .divide)
  | _ => none

/-- The target that an expression is. -/
def target? : Expr → Option Target
  | .variable name => some (.variable name)
  | .index object position => some (.index object position)
  | _ => none

/-- An expression or an assignment. -/
def simpleStatement (expression : Parser Expr) : Parser Stmt := do
  let start ← line
  let e ← expression
  match assignment? (← peek) with
  | none => return .expression start e
  | some op =>
    match target? e with
    | none => fail .invalidTarget
    | some target =>
      skip
      return .assign start target op (← expression)

/-- A `return` with its value. -/
def leaveStatement (expression : Parser Expr) : Parser Stmt := do
  let start ← line
  skip
  if ← atStatementEnd then return .leave start none
  else return .leave start (some (← expression))

/-- A statement that holds no block. -/
def plainStatement (expression : Parser Expr) : Parser Stmt := do
  if ← sees .returnWord then leaveStatement expression else simpleStatement expression

/-- Whether parameters in parentheses and a colon stand at the front, `depth` parentheses being
open. The end of a line ends the search. -/
def headerEnds (depth : Nat) : List Token → Bool
  | [] => false
  | t :: rest =>
    match t.kind with
    | .mark .leftParen => headerEnds (depth + 1) rest
    | .mark .rightParen =>
      if depth ≤ 1 then rest.head?.any (·.kind.isMark .colon) else headerEnds (depth - 1) rest
    | .mark .newline | .mark .endOfInput => false
    | _ => headerEnds depth rest

/-- Whether a name, parameters in parentheses and a colon stand at the front. -/
def atFunction : Parser Bool := fun ts =>
  let found := match ts.ahead with
    | t :: next :: rest =>
      match t.kind with
      | .name _ => next.kind.isMark .leftParen && headerEnds 1 rest
      | _ => false
    | _ => false
  .ok (found, ts)

/-- Parameters with commas between them, a closing parenthesis after the last, at most one for each
token of `room`; those before in reverse. -/
def parametersFrom : List Token → List String → Parser (List String)
  | [], _ => fail .missingParameter
  | _ :: room, before => do
    let param ← name .missingParameter
    if before.contains param then fail (.duplicateParameter param)
    else
      let before := param :: before
      if ← take .comma then
        if ← sees .rightParen then return before.reverse
        else parametersFrom room before
      else return before.reverse

/-- Parameters in parentheses. -/
def parameters : Parser (List String) := do
  skip
  let params ← if ← sees .rightParen then pure [] else parametersFrom (← room) []
  expect .rightParen .unclosedParameters
  return params

/-- A function declaration. -/
def functionStatement (block : Parser (List Stmt)) : Parser Stmt := do
  let start ← line
  let name ← name .unexpectedToken
  let params ← parameters
  return .function start name params (← block)

/-- Further branches, at most one for each token of `room`, and the block for when no condition
holds. -/
def branchesFrom (expression : Parser Expr) (block : Parser (List Stmt)) :
    List Token → List (Expr × List Stmt) → Parser (List (Expr × List Stmt) × Option (List Stmt))
  | [], before => pure (before.reverse, none)
  | _ :: room, before => do
    if !(← take .elseWord) then return (before.reverse, none)
    else if ← take .ifWord then
      let condition ← expression
      let body ← block
      branchesFrom expression block room ((condition, body) :: before)
    else return (before.reverse, some (← block))

/-- A choice between blocks. -/
def chooseStatement (expression : Parser Expr) (block : Parser (List Stmt)) : Parser Stmt := do
  let start ← line
  skip
  let condition ← expression
  let body ← block
  let (branches, otherwise) ← branchesFrom expression block (← room) [(condition, body)]
  return .choose start branches otherwise

/-- A loop. -/
def loopStatement (expression : Parser Expr) (block : Parser (List Stmt)) : Parser Stmt := do
  let start ← line
  skip
  let name ← name .missingLoopVariable
  expect .inWord .missingIn
  let subject ← expression
  return .loop start name subject (← block)

/-- A statement, given its expressions and its blocks. -/
def statementWith (expression : Parser Expr) (block : Parser (List Stmt)) : Parser Stmt := do
  match ← peek with
  | .mark .ifWord => chooseStatement expression block
  | .mark .forWord => loopStatement expression block
  | _ =>
    if ← atFunction then functionStatement block
    else
      let stmt ← plainStatement expression
      endStatement
      return stmt

/-- The statements of an indented suite up to its end, at most one for each token of `room`; those
before in reverse. -/
def suiteFrom (statement : Parser Stmt) : List Token → List Stmt → Parser (List Stmt)
  | room, before => do
    skipSeparators
    if ← take .dedent then return before.reverse
    else if ← sees .endOfInput then fail .unterminatedBlock
    else
      match room with
      | [] => fail .unterminatedBlock
      | _ :: room => suiteFrom statement room ((← statement) :: before)

/-- Simple statements on one line with semicolons between them, at most one for each token of `room`
and one more; those before in reverse. -/
def inlineFrom (expression : Parser Expr) : List Token → List Stmt → Parser (List Stmt)
  | room, before => do
    let stmt ← plainStatement expression
    match room with
    | [] => return (stmt :: before).reverse
    | _ :: room =>
      if ← take .semicolon then
        if ← atStatementEnd then return (stmt :: before).reverse
        else inlineFrom expression room (stmt :: before)
      else return (stmt :: before).reverse

/-- A block after its colon: an indented suite, or simple statements up to the end of the line. -/
def suite (expression : Parser Expr) (statement : Parser Stmt) : Parser (List Stmt) := do
  expect .colon .missingColon
  if ← take .newline then
    if ← take .indent then suiteFrom statement (← room) []
    else fail .missingIndentedBlock
  else
    let stmts ← inlineFrom expression (← room) []
    endStatement
    return stmts

/-- A statement, `depth` levels being left. -/
def statementAt : Nat → Parser Stmt
  | 0 => statementWith (expressionAt 0) tooDeep
  | depth + 1 =>
    statementWith (expressionAt (depth + 1)) (suite (expressionAt depth) (statementAt depth))

/-- Statements up to the end of the input, at most one for each token of `room`; those before in
reverse. -/
def statementsFrom (statement : Parser Stmt) : List Token → List Stmt → Parser (List Stmt)
  | room, before => do
    skipSeparators
    if ← sees .endOfInput then return before.reverse
    else if ← sees .indent then fail .unexpectedIndentation
    else
      match room with
      | [] => return before.reverse
      | _ :: room => statementsFrom statement room ((← statement) :: before)

/-- A whole program. -/
def program : Parser Program := do
  let stmts ← statementsFrom (statementAt nestingLimit) (← room) []
  return ⟨stmts⟩

end Parser

/-- The first fault of a list of tokens. -/
def firstFault? (tokens : List Token) : Option ScriptError :=
  tokens.findSome? fun t =>
    match t.kind with
    | .fault f => some (.parse (.fault f) t.line t.column)
    | _ => none

namespace Program

/-- Read tokens as a program. -/
def ofTokens? (tokens : List Token) : Except ScriptError Program :=
  match firstFault? tokens with
  | some e => .error e
  | none => (Parser.program.run (Tokens.ofList tokens)).map Prod.fst

/-- Read a source as a program. -/
def ofSource? (source : String) : Except ScriptError Program :=
  ofTokens? (Token.tokenize source)

end Program

end SheetScript
