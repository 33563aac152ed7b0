import SheetScript.Program.Parser

/-!
# The grammar of scripts

A `Phrase` says which tokens stand for what. Each construct of the language makes phrases of those
of its parts, as the parser of the construct makes a parser of theirs.

* `Phrase.SignedAt`, `Phrase.ExpressionAt` and `Phrase.StatementAt` are the phrases with so many
  levels left, as the parsers are.
* Line ends and semicolons may stand before and behind each statement. The parser asks for more: a
  statement ends where nothing of it can follow.
* `StatementAt.ne_nil`: no statement is empty.
-/

namespace SheetScript

open Token SheetScript.Parser

/-- Which tokens stand for what. -/
abbrev Phrase (α : Type) := List Token → α → Prop

namespace Phrase

variable {α : Type}

/-- What takes a level when none is left. -/
def Never : Phrase α := fun _ _ => False

/-- A thing between two marks. -/
inductive Between (opening closing : Mark) (inner : Phrase α) : Phrase α
  | intro {o c : Token} {ts : List Token} {a : α} (opens : o.kind = .mark opening)
      (inside : inner ts a) (closes : c.kind = .mark closing) :
      Between opening closing inner (o :: (ts ++ [c])) a

/-- Things with a mark between them and perhaps one behind the last. -/
inductive Listed (separator : Mark) (item : Phrase α) : Phrase (List α)
  | nil : Listed separator item [] []
  | last {ts : List Token} {a : α} (h : item ts a) : Listed separator item ts [a]
  | cons {ts ts' : List Token} {t : Token} {a : α} {as : List α} (h : item ts a)
      (separates : t.kind = .mark separator) (rest : Listed separator item ts' as) :
      Listed separator item (ts ++ t :: ts') (a :: as)

/-! ## Expressions -/

/-- Operands joined from the left. -/
inductive Chain (joiner? : Kind → Option (Expr → Expr → Expr)) (operand : Phrase Expr) : Phrase Expr
  | operand {ts : List Token} {e : Expr} (h : operand ts e) : Chain joiner? operand ts e
  | join {ts ts' : List Token} {t : Token} {left right : Expr} {join : Expr → Expr → Expr}
      (l : Chain joiner? operand ts left) (joins : joiner? t.kind = some join)
      (r : operand ts' right) : Chain joiner? operand (ts ++ t :: ts') (join left right)

/-- An expression, given its operands with signs. -/
def Disjunction (signed : Phrase Expr) : Phrase Expr :=
  Chain (connect? .orWord .or) <| Chain (connect? .andWord .and) <|
    Chain (join? comparison?) <| Chain (join? sum?) <| Chain (join? product?) signed

/-- An entry of a map, whose key is a name or a string. -/
inductive Entry (value : Phrase Expr) : Phrase (String × Expr)
  | intro {k c : Token} {ts : List Token} {key : String} {e : Expr}
      (names : k.kind = .name key ∨ k.kind = .string key) (colon : c.kind = .mark .colon)
      (h : value ts e) : Entry value (k :: c :: ts) (key, e)

/-- An operand by itself, given the expressions inside brackets. -/
inductive Primary (inner : Phrase Expr) : Phrase Expr
  | number {t : Token} {value : Float} (h : t.kind = .number value) :
      Primary inner [t] (.number value)
  | string {t : Token} {value : String} (h : t.kind = .string value) :
      Primary inner [t] (.string value)
  | name {t : Token} {name : String} (h : t.kind = .name name) : Primary inner [t] (.variable name)
  | bool {t : Token} (value : Bool)
      (h : t.kind = .mark (if value then .trueWord else .falseWord)) :
      Primary inner [t] (.bool value)
  | null {t : Token} (h : t.kind = .mark .nullWord) : Primary inner [t] .null
  | group {ts : List Token} {e : Expr} (h : Between .leftParen .rightParen inner ts e) :
      Primary inner ts e
  | array {ts : List Token} {es : List Expr}
      (h : Between .leftBracket .rightBracket (Listed .comma inner) ts es) :
      Primary inner ts (.array es)
  | map {ts : List Token} {entries : List (String × Expr)}
      (h : Between .leftBrace .rightBrace (Listed .comma (Entry inner)) ts entries) :
      Primary inner ts (.map entries)

/-- An operand with its calls, properties and indices. -/
inductive Suffixed (inner : Phrase Expr) : Phrase Expr
  | primary {ts : List Token} {e : Expr} (h : Primary inner ts e) : Suffixed inner ts e
  | call {ts ts' : List Token} {callee : Expr} {args : List Expr} (x : Suffixed inner ts callee)
      (h : Between .leftParen .rightParen (Listed .comma inner) ts' args) :
      Suffixed inner (ts ++ ts') (.call callee args)
  | property {ts : List Token} {d n : Token} {object : Expr} {name : String}
      (x : Suffixed inner ts object) (dot : d.kind = .mark .dot) (names : n.kind = .name name) :
      Suffixed inner (ts ++ [d, n]) (.property object name)
  | index {ts ts' : List Token} {object position : Expr} (x : Suffixed inner ts object)
      (h : Between .leftBracket .rightBracket inner ts' position) :
      Suffixed inner (ts ++ ts') (.index object position)

/-- An operand with its sign or its exponent, given the phrases one level deeper. -/
inductive Signed (inner deeper : Phrase Expr) : Phrase Expr
  | sign {t : Token} {ts : List Token} {op : Unary} {e : Expr} (signs : unary? t.kind = some op)
      (x : deeper ts e) : Signed inner deeper (t :: ts) (.unary op e)
  | base {ts : List Token} {e : Expr} (x : Suffixed inner ts e) : Signed inner deeper ts e
  | power {ts ts' : List Token} {t : Token} {base exponent : Expr} (l : Suffixed inner ts base)
      (raises : t.kind = .mark .power) (r : deeper ts' exponent) :
      Signed inner deeper (ts ++ t :: ts') (.binary .power base exponent)

/-- An operand with its sign or its exponent, `depth` levels being left. -/
def SignedAt : Nat → Phrase Expr
  | 0 => Signed Never Never
  | depth + 1 => Signed (Disjunction (SignedAt depth)) (SignedAt depth)

/-- An expression, `depth` levels being left; it takes one of them. -/
def ExpressionAt : Nat → Phrase Expr
  | 0 => Never
  | depth + 1 => Disjunction (SignedAt depth)

/-! ## Statements -/

/-- Line ends and semicolons. -/
def Separators (ts : List Token) : Prop :=
  ∀ t ∈ ts, t.kind = .mark .newline ∨ t.kind = .mark .semicolon

/-- A statement that holds no block. -/
inductive Plain (expression : Phrase Expr) : Phrase Stmt
  | expression {ts : List Token} {e : Expr} (line : Nat) (h : expression ts e) :
      Plain expression ts (.expression line e)
  | assign {ts ts' : List Token} {t : Token} {e value : Expr} {target : Target}
      {op : Option Operator} (line : Nat) (h : expression ts e) (named : target? e = some target)
      (assigns : assignment? t.kind = some op) (h' : expression ts' value) :
      Plain expression (ts ++ t :: ts') (.assign line target op value)
  | leave {t : Token} (line : Nat) (h : t.kind = .mark .returnWord) :
      Plain expression [t] (.leave line none)
  | leaveWith {t : Token} {ts : List Token} {e : Expr} (line : Nat)
      (h : t.kind = .mark .returnWord) (h' : expression ts e) :
      Plain expression (t :: ts) (.leave line (some e))

/-- Statements, with line ends and semicolons before, between and behind them. -/
inductive Statements (statement : Phrase Stmt) : Phrase (List Stmt)
  | nil {ts : List Token} (h : Separators ts) : Statements statement ts []
  | cons {before ts ts' : List Token} {stmt : Stmt} {stmts : List Stmt} (free : Separators before)
      (h : statement ts stmt) (rest : Statements statement ts' stmts) :
      Statements statement (before ++ (ts ++ ts')) (stmt :: stmts)

/-- A block after its colon: an indented suite, or simple statements up to the end of the line. -/
inductive Suite (expression : Phrase Expr) (statement : Phrase Stmt) : Phrase (List Stmt)
  | indented {c n i d : Token} {ts : List Token} {stmts : List Stmt}
      (colon : c.kind = .mark .colon) (newline : n.kind = .mark .newline)
      (indent : i.kind = .mark .indent) (h : Statements statement ts stmts)
      (dedent : d.kind = .mark .dedent) :
      Suite expression statement (c :: n :: i :: (ts ++ [d])) stmts
  | inline {c : Token} {ts behind : List Token} {stmts : List Stmt} (colon : c.kind = .mark .colon)
      (h : Listed .semicolon (Plain expression) ts stmts) (free : Separators behind) :
      Suite expression statement (c :: (ts ++ behind)) stmts

/-- The branches of a choice behind the first one, and the block for when no condition holds. -/
inductive Branches (expression : Phrase Expr) (block : Phrase (List Stmt)) :
    Phrase (List (Expr × List Stmt) × Option (List Stmt))
  | nil : Branches expression block [] ([], none)
  | otherwise {t : Token} {ts : List Token} {body : List Stmt} (h : t.kind = .mark .elseWord)
      (b : block ts body) : Branches expression block (t :: ts) ([], some body)
  | cons {t t' : Token} {ts ts' ts'' : List Token} {condition : Expr} {body : List Stmt}
      {branches : List (Expr × List Stmt)} {otherwise : Option (List Stmt)}
      (h : t.kind = .mark .elseWord) (h' : t'.kind = .mark .ifWord) (c : expression ts condition)
      (b : block ts' body) (rest : Branches expression block ts'' (branches, otherwise)) :
      Branches expression block (t :: t' :: (ts ++ (ts' ++ ts'')))
        ((condition, body) :: branches, otherwise)

/-- The name of a parameter. -/
def Parameter : Phrase String := fun ts name => ∃ t : Token, ts = [t] ∧ t.kind = .name name

/-- A statement, given its expressions and its blocks. -/
inductive Statement (expression : Phrase Expr) (block : Phrase (List Stmt)) : Phrase Stmt
  | plain {ts behind : List Token} {stmt : Stmt} (h : Plain expression ts stmt)
      (free : Separators behind) : Statement expression block (ts ++ behind) stmt
  | choose {t : Token} {ts ts' ts'' : List Token} {condition : Expr} {body : List Stmt}
      {branches : List (Expr × List Stmt)} {otherwise : Option (List Stmt)} (line : Nat)
      (h : t.kind = .mark .ifWord) (c : expression ts condition) (b : block ts' body)
      (rest : Branches expression block ts'' (branches, otherwise)) :
      Statement expression block (t :: (ts ++ (ts' ++ ts'')))
        (.choose line ((condition, body) :: branches) otherwise)
  | loop {t n i : Token} {ts ts' : List Token} {name : String} {subject : Expr} {body : List Stmt}
      (line : Nat) (h : t.kind = .mark .forWord) (names : n.kind = .name name)
      (h' : i.kind = .mark .inWord) (s : expression ts subject) (b : block ts' body) :
      Statement expression block (t :: n :: i :: (ts ++ ts')) (.loop line name subject body)
  | function {n : Token} {ts ts' : List Token} {name : String} {params : List String}
      {body : List Stmt} (line : Nat) (names : n.kind = .name name)
      (p : Between .leftParen .rightParen (Listed .comma Parameter) ts params)
      (b : block ts' body) :
      Statement expression block (n :: (ts ++ ts')) (.function line name params body)

/-- A statement, `depth` levels being left. -/
def StatementAt : Nat → Phrase Stmt
  | 0 => Statement (ExpressionAt 0) Never
  | depth + 1 =>
    Statement (ExpressionAt (depth + 1)) (Suite (ExpressionAt depth) (StatementAt depth))

/-! ## Nothing is empty -/

/-- Each thing takes a token. -/
def Solid (phrase : Phrase α) : Prop := ∀ ⦃ts a⦄, phrase ts a → ts ≠ []

theorem Between.ne_nil {opening closing : Mark} {inner : Phrase α} :
    Solid (Between opening closing inner) := by
  rintro _ _ ⟨⟩
  exact List.cons_ne_nil _ _

theorem Suffixed.ne_nil {inner : Phrase Expr} : Solid (Suffixed inner) := by
  intro ts e h
  induction h with
  | primary h =>
    cases h with
    | group h | array h | map h => exact h.ne_nil
    | _ => exact List.cons_ne_nil _ _
  | call _ _ ih | property _ _ _ ih | index _ _ ih => exact List.append_ne_nil_of_left_ne_nil ih _

theorem Signed.ne_nil {inner deeper : Phrase Expr} : Solid (Signed inner deeper) := by
  intro ts e h
  cases h with
  | sign => exact List.cons_ne_nil _ _
  | base x => exact x.ne_nil
  | power l => exact List.append_ne_nil_of_left_ne_nil l.ne_nil _

theorem Chain.ne_nil {joiner? : Kind → Option (Expr → Expr → Expr)} {operand : Phrase Expr}
    (solid : Solid operand) : Solid (Chain joiner? operand) := by
  intro ts e h
  cases h with
  | operand h => exact solid h
  | join => exact List.append_ne_nil_of_right_ne_nil _ (List.cons_ne_nil _ _)

theorem ExpressionAt.ne_nil (depth : Nat) : Solid (ExpressionAt depth) := by
  cases depth with
  | zero => exact fun _ _ h => h.elim
  | succ depth =>
    have signed : Solid (SignedAt depth) := by cases depth <;> exact Signed.ne_nil
    exact Chain.ne_nil (Chain.ne_nil (Chain.ne_nil (Chain.ne_nil (Chain.ne_nil signed))))

theorem Plain.ne_nil {expression : Phrase Expr} (solid : Solid expression) :
    Solid (Plain expression) := by
  intro ts stmt h
  cases h with
  | expression _ h => exact solid h
  | assign _ h => exact List.append_ne_nil_of_left_ne_nil (solid h) _
  | leave | leaveWith => exact List.cons_ne_nil _ _

theorem StatementAt.ne_nil (depth : Nat) : Solid (StatementAt depth) := by
  have all : ∀ {expression : Phrase Expr} {block : Phrase (List Stmt)}, Solid expression →
      Solid (Statement expression block) := by
    intro expression block solid ts stmt h
    cases h with
    | plain h => exact List.append_ne_nil_of_left_ne_nil (Plain.ne_nil solid h) _
    | choose | loop | function => exact List.cons_ne_nil _ _
  cases depth with
  | zero => exact all (ExpressionAt.ne_nil 0)
  | succ depth => exact all (ExpressionAt.ne_nil (depth + 1))

end Phrase

end SheetScript
