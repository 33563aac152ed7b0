import SheetScript.Program.Parser

/-!
# The parser with its guards

The same parser with all that could go wrong in it: an index into the list of tokens, a counter for
the nesting, loops, and functions that call each other. Each of these is guarded by a `Trap`.

* `Guarded` is the monad. `tokenAt` and `tokensFrom` look into the list of tokens, `nested` and
  `headerFrom` count up and down, and `loop` goes round at most once more than there are tokens.
* `Routine` lists the functions that take part in the recursion. `body` is what each of them does,
  and `call` runs them with so many calls at most active at one time.
* `parse` runs the whole on a list of tokens, which it closes with `endOfInput` if need be.
-/

namespace SheetScript

open Token

namespace Guarded

/-- What must not happen. -/
inductive Trap where
  /-- A token that is not in the list is asked for. -/
  | outside
  /-- A counter goes below zero. -/
  | belowZero
  /-- Too many calls are active. -/
  | tooManyCalls
  /-- A loop goes round more often than there are tokens. -/
  | endless
  deriving DecidableEq, Repr

/-- Why the parser stops. -/
inductive Stop where
  | rejected (e : ScriptError)
  | trapped (t : Trap)

/-- Where the parser is: the index of the token at the front, and the levels of nesting. -/
structure Cursor where
  index : Nat
  nesting : Nat

end Guarded

/-- A guarded parser knows the tokens and moves a cursor. -/
abbrev Guarded (α : Type) := ReaderT (List Token) (StateT Guarded.Cursor (Except Guarded.Stop)) α

namespace Guarded

variable {α β γ : Type}

/-! ## One token -/

def trap (t : Trap) : Guarded α := fun _ _ => .error (.trapped t)

/-- The token at an index, which has to be one of the list. -/
def tokenAt (i : Nat) : Guarded Token := fun tokens c =>
  match tokens[i]? with
  | some t => .ok (t, c)
  | none => .error (.trapped .outside)

/-- The tokens from an index on, which must not be behind the end of the list. -/
def tokensFrom (i : Nat) : Guarded (List Token) := fun tokens c =>
  if i ≤ tokens.length then .ok (tokens.drop i, c) else .error (.trapped .outside)

/-- The index of the token at the front. -/
def index : Guarded Nat := fun _ c => .ok (c.index, c)

/-- The token at the front. -/
def peek : Guarded Token := do tokenAt (← index)

/-- The kind of the token at the front. -/
def kind : Guarded Kind := do return (← peek).kind

/-- The kind of a token further on, if there is one. -/
def kindAt? (i : Nat) : Guarded (Option Kind) := fun tokens c =>
  .ok (tokens[i]?.map Token.kind, c)

/-- Fail at the token at the front. -/
def fail (c : Complaint) : Guarded α := do
  let t ← peek
  fun _ _ => .error (.rejected (.parse (.complaint c (Found.ofToken t)) t.line t.column))

/-- Go on to the next token. The last one is never stepped past. -/
def advance : Guarded Unit := fun tokens c =>
  .ok ((), if c.index + 1 < tokens.length then { c with index := c.index + 1 } else c)

/-- Whether the mark stands at the front. -/
def check (m : Mark) : Guarded Bool := do return (← kind).isMark m

/-- Take the mark if it stands at the front; whether it did. -/
def take (m : Mark) : Guarded Bool := do
  if ← check m then
    advance
    return true
  else return false

/-- Take the mark or fail. -/
def consume (m : Mark) (c : Complaint) : Guarded Unit := do
  if ← check m then advance else fail c

/-- Take a name or fail. -/
def identifier (c : Complaint) : Guarded String := do
  match ← kind with
  | .name text =>
    advance
    return text
  | _ => fail c

/-- The key of an entry of a map. -/
def key : Guarded String := do
  match ← kind with
  | .name text | .string text =>
    advance
    return text
  | _ => fail .missingKey

/-- The line of the token at the front. -/
def line : Guarded Nat := do return (← peek).line

/-! ## Nesting and loops -/

/-- The levels of nesting. -/
def nesting : Guarded Nat := fun _ c => .ok (c.nesting, c)

/-- One level deeper. -/
def enter : Guarded Unit := fun _ c => .ok ((), { c with nesting := c.nesting + 1 })

/-- One level back. -/
def leave : Guarded Unit := fun _ c =>
  match c.nesting with
  | 0 => .error (.trapped .belowZero)
  | n + 1 => .ok ((), { c with nesting := n })

/-- Run a parser one level deeper. -/
def nested (p : Guarded α) : Guarded α := do
  if Parser.nestingLimit ≤ (← nesting) then fail (.tooDeep Parser.nestingLimit)
  else
    enter
    let a ← p
    leave
    return a

/-- Go round until a round gives a result, so many times at most. -/
def rounds (step : β → Guarded (β ⊕ γ)) : Nat → β → Guarded γ
  | 0, _ => trap .endless
  | fuel + 1, b => do
    match ← step b with
    | .inl b => rounds step fuel b
    | .inr c => return c

/-- Go round until a round gives a result, once for each token and once more at most. -/
def loop (step : β → Guarded (β ⊕ γ)) (b : β) : Guarded γ := fun tokens c =>
  rounds step (tokens.length + 1) b tokens c

/-! ## Ends of statements and headers of functions -/

/-- Whether nothing of a statement can follow. -/
def atStatementEnd : Guarded Bool := do
  match ← kind with
  | .mark .newline | .mark .semicolon | .mark .endOfInput | .mark .dedent => return true
  | _ => return false

/-- The end of a simple statement. -/
def endStatement : Guarded Unit := do
  match ← kind with
  | .mark .newline | .mark .semicolon => advance
  | .mark .endOfInput | .mark .dedent => return ()
  | _ => fail .unendedStatement

/-- One line end or semicolon. -/
def separatorRound (_ : Unit) : Guarded (Unit ⊕ Unit) := do
  match ← kind with
  | .mark .newline | .mark .semicolon =>
    advance
    return .inl ()
  | _ => return .inr ()

def skipSeparators : Guarded Unit := loop separatorRound ()

/-- Go through the tokens from an index on, `depth` parentheses being open: whether they are all
closed on this line, and a colon follows. -/
def headerFrom : Nat → Nat → List Token → Guarded Bool
  | _, _, [] => return false
  | i, depth, t :: rest =>
    match t.kind with
    | .mark .leftParen => headerFrom (i + 1) (depth + 1) rest
    | .mark .rightParen =>
      match depth with
      | 0 => trap .belowZero
      | 1 => do return (← kindAt? (i + 1)).any (·.isMark .colon)
      | depth + 2 => headerFrom (i + 1) (depth + 1) rest
    | .mark .newline | .mark .endOfInput => return false
    | _ => headerFrom (i + 1) depth rest

/-- Whether parameters in parentheses and a colon follow the token at the front. -/
def atFunctionHeader : Guarded Bool := do
  let next := (← index) + 1
  if (← kindAt? next).any (·.isMark .leftParen) then headerFrom next 0 (← tokensFrom next)
  else return false

/-! ## Routines

A statement that begins with a word, or with the name of a function and a parenthesis, is only read
where these have been seen. They are asked for once more all the same, and the complaint of that is
never made. -/

/-- The functions that take part in the recursion. -/
inductive Routine : Type → Type
  | statement : Routine Stmt
  | functionDeclaration : Routine Stmt
  | ifStatement : Routine Stmt
  | forStatement : Routine Stmt
  | returnStatement : Routine Stmt
  | simpleStatement : Routine Stmt
  | block : Routine (List Stmt)
  | suite : Routine (List Stmt)
  | expression : Routine Expr
  | or : Routine Expr
  | and : Routine Expr
  | comparison : Routine Expr
  | term : Routine Expr
  | factor : Routine Expr
  | unary : Routine Expr
  | power : Routine Expr
  | call : Routine Expr
  | primary : Routine Expr
  | expressionList (close : Mark) : Routine (List Expr)

variable (go : {α : Type} → Routine α → Guarded α)

/-- One operand more, if an operator follows. -/
def chainRound (joiner? : Kind → Option (Expr → Expr → Expr)) (operand : Guarded Expr)
    (left : Expr) : Guarded (Expr ⊕ Expr) := do
  match joiner? (← kind) with
  | none => return .inr left
  | some join =>
    advance
    let right ← operand
    return .inl (join left right)

/-- Operands joined from the left. -/
def chained (joiner? : Kind → Option (Expr → Expr → Expr)) (operand : Guarded Expr) :
    Guarded Expr := do
  let left ← operand
  loop (chainRound joiner? operand) left

/-- One thing of a list, up to the closing mark; those before in reverse. -/
def listRound (item : Guarded α) (close : Mark) (before : List α) :
    Guarded (List α ⊕ List α) := do
  if ← check close then return .inr before.reverse
  else
    let a ← item
    if ← take .comma then return .inl (a :: before)
    else return .inr (a :: before).reverse

/-- Expressions with commas between them, up to the closing mark. -/
def expressionList (close : Mark) : Guarded (List Expr) :=
  loop (listRound (go .expression) close) []

/-- An entry of a map. -/
def entry : Guarded (String × Expr) := do
  let key ← key
  consume .colon .missingKeyColon
  let value ← go .expression
  return (key, value)

def primary : Guarded Expr := do
  match ← kind with
  | .number value => advance; return .number value
  | .string value => advance; return .string value
  | .name text => advance; return .variable text
  | .mark .trueWord => advance; return .bool true
  | .mark .falseWord => advance; return .bool false
  | .mark .nullWord => advance; return .null
  | .mark .leftParen =>
    advance
    let e ← go .expression
    consume .rightParen .unclosedParenthesis
    return e
  | .mark .leftBracket =>
    advance
    let items ← go (.expressionList .rightBracket)
    consume .rightBracket .unclosedArray
    return .array items
  | .mark .leftBrace =>
    advance
    let entries ← loop (listRound (entry go) .rightBrace) []
    consume .rightBrace .unclosedMap
    return .map entries
  | _ => fail .unexpectedToken

/-- One call, property or index more, if one follows. -/
def suffixRound (e : Expr) : Guarded (Expr ⊕ Expr) := do
  if ← take .leftParen then
    let args ← go (.expressionList .rightParen)
    consume .rightParen .unclosedArguments
    return .inl (.call e args)
  else if ← take .dot then
    let property ← identifier .missingProperty
    return .inl (.property e property)
  else if ← take .leftBracket then
    let position ← go .expression
    consume .rightBracket .unclosedIndex
    return .inl (.index e position)
  else return .inr e

/-- An operand with its calls, properties and indices. -/
def suffixed : Guarded Expr := do
  let e ← go .primary
  loop (suffixRound go) e

/-- An operand with its exponent. -/
def power : Guarded Expr := do
  let base ← go .call
  if ← take .power then
    let exponent ← nested (go .unary)
    return .binary .power base exponent
  else return base

/-- An operand with its sign. -/
def unary : Guarded Expr := do
  match Parser.unary? (← kind) with
  | some op =>
    advance
    let operand ← nested (go .unary)
    return .unary op operand
  | none => go .power

def simpleStatement : Guarded Stmt := do
  let start ← line
  let e ← go .expression
  match Parser.assignment? (← kind) with
  | none => return .expression start e
  | some op =>
    match Parser.target? e with
    | none => fail .invalidTarget
    | some target =>
      advance
      let value ← go .expression
      return .assign start target op value

def returnStatement : Guarded Stmt := do
  let start ← line
  consume .returnWord .unexpectedToken
  if ← atStatementEnd then return .leave start none
  else
    let value ← go .expression
    return .leave start (some value)

/-- One parameter; those before in reverse. -/
def parameterRound (before : List String) : Guarded (List String ⊕ List String) := do
  let param ← identifier .missingParameter
  if before.contains param then fail (.duplicateParameter param)
  else
    let before := param :: before
    if ← take .comma then
      if ← check .rightParen then return .inr before.reverse
      else return .inl before
    else return .inr before.reverse

def parameters : Guarded (List String) := do
  if ← check .rightParen then return []
  else loop parameterRound []

def functionDeclaration : Guarded Stmt := do
  let start ← line
  let name ← identifier .unexpectedToken
  consume .leftParen .unexpectedToken
  let params ← parameters
  consume .rightParen .unclosedParameters
  let body ← go .block
  return .function start name params body

/-- One branch more, if one follows; those before in reverse. -/
def branchRound (before : List (Expr × List Stmt)) :
    Guarded (List (Expr × List Stmt) ⊕ List (Expr × List Stmt) × Option (List Stmt)) := do
  if ← take .elseWord then
    if ← take .ifWord then
      let condition ← go .expression
      let body ← go .block
      return .inl ((condition, body) :: before)
    else
      let body ← go .block
      return .inr (before.reverse, some body)
  else return .inr (before.reverse, none)

def ifStatement : Guarded Stmt := do
  let start ← line
  consume .ifWord .unexpectedToken
  let condition ← go .expression
  let body ← go .block
  let (branches, otherwise) ← loop (branchRound go) [(condition, body)]
  return .choose start branches otherwise

def forStatement : Guarded Stmt := do
  let start ← line
  consume .forWord .unexpectedToken
  let name ← identifier .missingLoopVariable
  consume .inWord .missingIn
  let subject ← go .expression
  let body ← go .block
  return .loop start name subject body

def statement : Guarded Stmt := do
  match ← kind with
  | .mark .ifWord => go .ifStatement
  | .mark .forWord => go .forStatement
  | .mark .returnWord =>
    let stmt ← go .returnStatement
    endStatement
    return stmt
  | .name _ =>
    if ← atFunctionHeader then go .functionDeclaration
    else
      let stmt ← go .simpleStatement
      endStatement
      return stmt
  | _ =>
    let stmt ← go .simpleStatement
    endStatement
    return stmt

/-- One statement of an indented suite; those before in reverse. -/
def suiteRound (before : List Stmt) : Guarded (List Stmt ⊕ List Stmt) := do
  skipSeparators
  if ← take .dedent then return .inr before.reverse
  else if ← check .endOfInput then fail .unterminatedBlock
  else
    let stmt ← go .statement
    return .inl (stmt :: before)

/-- A statement that holds no block. -/
def plainStatement : Guarded Stmt := do
  if ← check .returnWord then go .returnStatement else go .simpleStatement

/-- One simple statement of a line; those before in reverse. -/
def inlineRound (before : List Stmt) : Guarded (List Stmt ⊕ List Stmt) := do
  let stmt ← plainStatement go
  if ← take .semicolon then
    if ← atStatementEnd then return .inr (stmt :: before).reverse
    else return .inl (stmt :: before)
  else return .inr (stmt :: before).reverse

/-- A block after its colon: an indented suite, or simple statements up to the end of the line. -/
def suite : Guarded (List Stmt) := do
  consume .colon .missingColon
  if ← take .newline then
    if ← take .indent then loop (suiteRound go) []
    else fail .missingIndentedBlock
  else
    let stmts ← loop (inlineRound go) []
    endStatement
    return stmts

/-- What a routine does, given its calls. -/
def body : {α : Type} → Routine α → Guarded α
  | _, .statement => statement go
  | _, .functionDeclaration => functionDeclaration go
  | _, .ifStatement => ifStatement go
  | _, .forStatement => forStatement go
  | _, .returnStatement => returnStatement go
  | _, .simpleStatement => simpleStatement go
  | _, .block => nested (go .suite)
  | _, .suite => suite go
  | _, .expression => nested (go .or)
  | _, .or => chained (Parser.connect? .orWord .or) (go .and)
  | _, .and => chained (Parser.connect? .andWord .and) (go .comparison)
  | _, .comparison => chained (Parser.join? Parser.comparison?) (go .term)
  | _, .term => chained (Parser.join? Parser.sum?) (go .factor)
  | _, .factor => chained (Parser.join? Parser.product?) (go .unary)
  | _, .unary => unary go
  | _, .power => power go
  | _, .call => suffixed go
  | _, .primary => primary go
  | _, .expressionList close => expressionList go close

/-- One statement of a program; those before in reverse. -/
def programRound (before : List Stmt) : Guarded (List Stmt ⊕ List Stmt) := do
  skipSeparators
  if ← check .endOfInput then return .inr before.reverse
  else if ← check .indent then fail .unexpectedIndentation
  else
    let stmt ← go .statement
    return .inl (stmt :: before)

/-- Statements up to the end of the input. -/
def program : Guarded Program := do
  let stmts ← loop (programRound go) []
  return ⟨stmts⟩

/-- Run a routine with so many calls at most active at one time. -/
def call : Nat → {α : Type} → Routine α → Guarded α
  | 0, _, _ => trap .tooManyCalls
  | calls + 1, _, r => body (call calls) r

/-- A list of tokens, closed by `endOfInput` if it is not closed yet. -/
def closed (tokens : List Token) : List Token :=
  match tokens.getLast? with
  | some t =>
    if t.kind.isMark .endOfInput then tokens else tokens ++ [Tokens.closing tokens]
  | none => [Tokens.closing []]

/-- Read a list of tokens as a program; where the cursor is then. -/
def parse (calls : Nat) (tokens : List Token) : Except Stop (Program × Cursor) :=
  match firstFault? (closed tokens) with
  | some e => .error (.rejected e)
  | none => program (call calls) (closed tokens) ⟨0, 0⟩

end Guarded

end SheetScript
