import Mathlib.Data.List.Forall2
import SheetScript.Proofs.Program.Accepts

/-!
# What a tree shows of its tokens

The traversal of a tree from left to right gives back its names, literals and operators. Brackets,
commas, colons, dots, line ends, indentation and the words of statements leave no node of their own.

* `Expr.shown`, `Stmt.shown` and `Program.shown` are the traversals. The key of a map shows its text
  alone: it may have been a name or a string.
* `Shows ts s` says of tokens what a traversal shows of them. There is one lemma for each
  construct of the grammar.
* `Program.forall₂_shown`: an accepted program shows exactly the names, literals and operators
  before the end of the input, in their order.
-/

namespace SheetScript

open Token

/-- The marks that a tree shows: the operators, and the words that are values. -/
def Mark.isShown : Mark → Bool
  | trueWord | falseWord | nullWord => true
  | andWord | orWord | notWord => true
  | plus | minus | star | power | slash | floorSlash | percent => true
  | equal | notEqual | less | greater | lessEqual | greaterEqual => true
  | assign | plusAssign | minusAssign | starAssign | slashAssign => true
  | _ => false

/-- The kinds of tokens that a tree shows. -/
def Token.Kind.isShown : Kind → Bool
  | number _ | string _ | name _ => true
  | mark m => m.isShown
  | fault _ => false

/-- What a tree shows of a token: its kind, but only the text of the key of a map. -/
inductive Shown where
  | kind (k : Kind)
  | key (text : String)

/-- The token is the one shown. -/
def Shown.Of : Shown → Token → Prop
  | kind k, t => t.kind = k
  | key text, t => t.kind = .name text ∨ t.kind = .string text

/-- The mark of an assignment. -/
def assignmentMark : Option Operator → Mark
  | none => .assign
  | some .add => .plusAssign
  | some .subtract => .minusAssign
  | some .multiply => .starAssign
  | some .divide => .slashAssign
  -- no mark assigns with another operator
  | some op => op.mark

/-! ## Traversals -/

namespace Expr

mutual

/-- What an expression shows of its tokens. -/
@[simp]
def shown : Expr → List Shown
  | number value => [.kind (.number value)]
  | string value => [.kind (.string value)]
  | bool value => [.kind (.mark (if value then .trueWord else .falseWord))]
  | null => [.kind (.mark .nullWord)]
  | .variable name => [.kind (.name name)]
  | binary op left right => left.shown ++ .kind (.mark op.mark) :: right.shown
  | logical op left right => left.shown ++ .kind (.mark op.mark) :: right.shown
  | unary op operand => .kind (.mark op.mark) :: operand.shown
  | call callee args => callee.shown ++ shownAll args
  | property object name => object.shown ++ [.kind (.name name)]
  | index object position => object.shown ++ position.shown
  | array items => shownAll items
  | map entries => shownEntries entries

/-- What several expressions show. -/
@[simp]
def shownAll : List Expr → List Shown
  | [] => []
  | e :: rest => e.shown ++ shownAll rest

/-- What the entries of a map show. -/
@[simp]
def shownEntries : List (String × Expr) → List Shown
  | [] => []
  | (key, value) :: rest => .key key :: (value.shown ++ shownEntries rest)

end

theorem shownAll_eq (es : List Expr) : shownAll es = es.flatMap shown := by
  induction es with
  | nil => rfl
  | cons e es ih => rw [shownAll, ih, List.flatMap_cons]

theorem shownEntries_eq (entries : List (String × Expr)) :
    shownEntries entries = entries.flatMap fun entry => .key entry.1 :: entry.2.shown := by
  induction entries with
  | nil => rfl
  | cons entry entries ih =>
    rw [shownEntries, ih, List.flatMap_cons]
    rfl

end Expr

/-- What a target shows of its tokens. -/
def Target.shown : Target → List Shown
  | .variable name => [.kind (.name name)]
  | index object position => object.shown ++ position.shown

namespace Stmt

mutual

/-- What a statement shows of its tokens. -/
@[simp]
def shown : Stmt → List Shown
  | expression _ value => value.shown
  | assign _ target op value => target.shown ++ .kind (.mark (assignmentMark op)) :: value.shown
  | choose _ branches otherwise => shownBranches branches ++ shownOtherwise otherwise
  | loop _ name items body => .kind (.name name) :: (items.shown ++ shownBlock body)
  | function _ name params body =>
    .kind (.name name) :: (params.map (fun param => .kind (.name param)) ++ shownBlock body)
  | leave _ none => []
  | leave _ (some value) => value.shown

/-- What the branches of a choice show. -/
@[simp]
def shownBranches : List (Expr × List Stmt) → List Shown
  | [] => []
  | (condition, body) :: rest => condition.shown ++ (shownBlock body ++ shownBranches rest)

/-- What the block for when no condition holds shows. -/
@[simp]
def shownOtherwise : Option (List Stmt) → List Shown
  | none => []
  | some body => shownBlock body

/-- What a block shows. -/
@[simp]
def shownBlock : List Stmt → List Shown
  | [] => []
  | stmt :: rest => stmt.shown ++ shownBlock rest

end

theorem shownBlock_eq (stmts : List Stmt) : shownBlock stmts = stmts.flatMap shown := by
  induction stmts with
  | nil => rfl
  | cons stmt stmts ih => rw [shownBlock, ih, List.flatMap_cons]

end Stmt

/-- What a program shows of its tokens. -/
def Program.shown (p : Program) : List Shown := Stmt.shownBlock p.statements

/-! ## What tokens show -/

/-- The names, literals and operators among these tokens are the ones shown, in this order. -/
def Shows (ts : List Token) (s : List Shown) : Prop :=
  List.Forall₂ Shown.Of s (ts.filter (·.kind.isShown))

theorem shows_nil : Shows [] [] := .nil

theorem Shows.append {ts ts' : List Token} {s s' : List Shown} (h : Shows ts s)
    (h' : Shows ts' s') : Shows (ts ++ ts') (s ++ s') := by
  rw [Shows, List.filter_append]
  exact List.rel_append h h'

/-- A token that a tree shows stands before the others. -/
theorem Shows.cons {t : Token} {x : Shown} {ts : List Token} {s : List Shown} (of : x.Of t)
    (visible : t.kind.isShown = true) (h : Shows ts s) : Shows (t :: ts) (x :: s) := by
  rw [Shows, List.filter_cons, if_pos visible]
  exact .cons of h

/-- A token that no tree shows stands before the others. -/
theorem Shows.hidden {t : Token} {ts : List Token} {s : List Shown}
    (hidden : t.kind.isShown = false) (h : Shows ts s) : Shows (t :: ts) s := by
  rwa [Shows, List.filter_cons, if_neg (Bool.eq_false_iff.1 hidden)]

namespace Phrase

/-- What stands for something shows what the traversal shows of it. -/
def ShownBy {α : Type} (phrase : Phrase α) (shown : α → List Shown) : Prop :=
  ∀ ⦃ts a⦄, phrase ts a → Shows ts (shown a)

section Lists

variable {α : Type} {phrase : Phrase α} {f : α → List Shown}

theorem never_shown : ShownBy Never f := fun _ _ h => h.elim

theorem Between.shown {opening closing : Mark} (h : ShownBy phrase f)
    (left : opening.isShown = false) (right : closing.isShown = false) :
    ShownBy (Between opening closing phrase) f := by
  rintro _ a ⟨opens, inside, closes⟩
  refine .hidden (by rw [opens]; exact left) ?_
  have close : Shows [_] [] := .hidden (by rw [closes]; exact right) shows_nil
  simpa using (h inside).append close

theorem Listed.shown {separator : Mark} (h : ShownBy phrase f)
    (hidden : separator.isShown = false) :
    ShownBy (Listed separator phrase) (·.flatMap f) := by
  intro ts as listed
  induction listed with
  | nil => exact shows_nil
  | last one => simpa using h one
  | cons one separates _ ih =>
    simp only [List.flatMap_cons]
    exact (h one).append (.hidden (by rw [separates]; exact hidden) ih)

end Lists

/-! ## Expressions -/

section Expressions

variable {inner deeper operand : Phrase Expr}

/-- Two operands that are joined show the token between them. -/
def Visible (joiner? : Kind → Option (Expr → Expr → Expr)) : Prop :=
  ∀ ⦃k join⦄, joiner? k = some join →
    k.isShown = true ∧ ∀ l r, (join l r).shown = l.shown ++ .kind k :: r.shown

theorem visible_join? {operator? : Mark → Option Operator}
    (marks : ∀ ⦃m op⦄, operator? m = some op → op.mark = m) : Visible (Parser.join? operator?) := by
  intro k join joins
  unfold Parser.join? at joins
  split at joins
  · next m =>
    obtain ⟨op, known, rfl⟩ := Option.map_eq_some_iff.1 joins
    obtain rfl := marks known
    exact ⟨by cases op <;> rfl, fun l r => by rw [Expr.shown]⟩
  · cases joins

theorem visible_connect? (op : Connective) : Visible (Parser.connect? op.mark op) := by
  intro k join joins
  unfold Parser.connect? at joins
  split at joins
  · split at joins
    · next m same =>
      cases joins
      rw [beq_iff_eq.1 same]
      exact ⟨by cases op <;> rfl, fun l r => by rw [Expr.shown]⟩
    · cases joins
  · cases joins

theorem Chain.shown {joiner? : Kind → Option (Expr → Expr → Expr)} (visible : Visible joiner?)
    (h : ShownBy operand Expr.shown) : ShownBy (Chain joiner? operand) Expr.shown := by
  intro ts e chain
  induction chain with
  | operand one => exact h one
  | join _ joins r ih =>
    obtain ⟨seen, eq⟩ := visible joins
    rw [eq]
    exact ih.append (.cons rfl seen (h r))

theorem Disjunction.shown (h : ShownBy operand Expr.shown) :
    ShownBy (Disjunction operand) Expr.shown := by
  refine Chain.shown (visible_connect? .or) <| Chain.shown (visible_connect? .and) <|
    Chain.shown (visible_join? ?_) <| Chain.shown (visible_join? ?_) <|
      Chain.shown (visible_join? ?_) h
  all_goals
    intro m op known
    cases m <;> cases known <;> rfl

theorem Entry.shown (h : ShownBy inner Expr.shown) :
    ShownBy (Entry inner) fun entry => .key entry.1 :: entry.2.shown := by
  rintro _ _ ⟨names, colon, value⟩
  refine .cons names ?_ (.hidden (by rw [colon]; rfl) (h value))
  obtain name | string := names
  · rw [name]
    rfl
  · rw [string]
    rfl

theorem Primary.shown (h : ShownBy inner Expr.shown) : ShownBy (Primary inner) Expr.shown := by
  intro ts e primary
  cases primary with
  | number kind | string kind | name kind =>
    rw [Expr.shown]
    exact .cons kind (by rw [kind]; rfl) shows_nil
  | null kind =>
    rw [Expr.shown]
    exact .cons kind (by rw [kind]; rfl) shows_nil
  | bool value kind =>
    rw [Expr.shown]
    exact .cons kind (by rw [kind]; cases value <;> rfl) shows_nil
  | group grouped => exact Between.shown h rfl rfl grouped
  | array items =>
    rw [Expr.shown, Expr.shownAll_eq]
    exact Between.shown (Listed.shown h rfl) rfl rfl items
  | map entries =>
    rw [Expr.shown, Expr.shownEntries_eq]
    exact Between.shown (Listed.shown (Entry.shown h) rfl) rfl rfl entries

theorem Suffixed.shown (h : ShownBy inner Expr.shown) : ShownBy (Suffixed inner) Expr.shown := by
  intro ts e suffixed
  induction suffixed with
  | primary one => exact Primary.shown h one
  | call _ args ih =>
    rw [Expr.shown, Expr.shownAll_eq]
    exact ih.append (Between.shown (Listed.shown h rfl) rfl rfl args)
  | property _ dot names ih =>
    rw [Expr.shown]
    exact ih.append (.hidden (by rw [dot]; rfl) (.cons names (by rw [names]; rfl) shows_nil))
  | index _ position ih =>
    rw [Expr.shown]
    exact ih.append (Between.shown h rfl rfl position)

theorem mark_of_unary? {k : Kind} {op : Unary} (h : Parser.unary? k = some op) :
    k = .mark op.mark := by
  unfold Parser.unary? at h
  split at h <;> cases h <;> rfl

theorem Signed.shown (h : ShownBy inner Expr.shown) (h' : ShownBy deeper Expr.shown) :
    ShownBy (Signed inner deeper) Expr.shown := by
  intro ts e signed
  cases signed with
  | @sign t _ op _ signs x =>
    have kind : t.kind = .mark op.mark := mark_of_unary? signs
    rw [Expr.shown]
    exact .cons kind (by rw [kind]; cases op <;> rfl) (h' x)
  | base x => exact Suffixed.shown h x
  | power l raises r =>
    rw [Expr.shown]
    exact (Suffixed.shown h l).append (.cons raises (by rw [raises]; rfl) (h' r))

theorem SignedAt.shown (depth : Nat) : ShownBy (SignedAt depth) Expr.shown := by
  induction depth with
  | zero => exact Signed.shown never_shown never_shown
  | succ depth ih => exact Signed.shown (Disjunction.shown ih) ih

theorem ExpressionAt.shown (depth : Nat) : ShownBy (ExpressionAt depth) Expr.shown := by
  cases depth with
  | zero => exact never_shown
  | succ depth => exact Disjunction.shown (SignedAt.shown depth)

end Expressions

/-! ## Statements -/

section Statements

variable {expression : Phrase Expr} {statement : Phrase Stmt} {block : Phrase (List Stmt)}

theorem Separators.shown {ts : List Token} (h : Separators ts) : Shows ts [] := by
  induction ts with
  | nil => exact shows_nil
  | cons t ts ih =>
    obtain ⟨free, rest⟩ := List.forall_mem_cons.1 h
    refine .hidden ?_ (ih rest)
    obtain kind | kind := free <;> rw [kind] <;> rfl

/-- Line ends and semicolons behind show nothing. -/
theorem Separators.shown_behind {ts behind : List Token} {s : List Shown} (free : Separators behind)
    (h : Shows ts s) : Shows (ts ++ behind) s := by
  simpa using h.append free.shown

theorem mark_of_assignment? {k : Kind} {op : Option Operator} (h : Parser.assignment? k = some op) :
    k = .mark (assignmentMark op) := by
  unfold Parser.assignment? at h
  split at h <;> cases h <;> rfl

theorem Plain.shown (h : ShownBy expression Expr.shown) :
    ShownBy (Plain expression) Stmt.shown := by
  intro ts stmt plain
  cases plain with
  | expression _ e =>
    rw [Stmt.shown]
    exact h e
  | @assign _ _ t e _ target op _ x named assigns value =>
    have written : target.shown = e.shown := by
      unfold Parser.target? at named
      split at named <;> cases named <;> simp only [Target.shown, Expr.shown]
    have kind : t.kind = .mark (assignmentMark op) := mark_of_assignment? assigns
    have seen : t.kind.isShown = true := by
      rw [kind]
      cases op with
      | none => rfl
      | some op => cases op <;> rfl
    rw [Stmt.shown, written]
    exact (h x).append (.cons kind seen (h value))
  | leave _ kind =>
    rw [Stmt.shown]
    exact .hidden (by rw [kind]; rfl) shows_nil
  | leaveWith _ kind e =>
    rw [Stmt.shown]
    exact .hidden (by rw [kind]; rfl) (h e)

theorem Statements.shown (h : ShownBy statement Stmt.shown) :
    ShownBy (Statements statement) Stmt.shownBlock := by
  intro ts stmts all
  induction all with
  | nil free => exact free.shown
  | cons free one _ ih =>
    rw [Stmt.shownBlock]
    exact free.shown.append ((h one).append ih)

theorem Suite.shown (h : ShownBy expression Expr.shown) (h' : ShownBy statement Stmt.shown) :
    ShownBy (Suite expression statement) Stmt.shownBlock := by
  intro ts stmts suite
  cases suite with
  | indented colon newline indent all dedent =>
    refine .hidden (by rw [colon]; rfl) (.hidden (by rw [newline]; rfl) ?_)
    refine .hidden (by rw [indent]; rfl) ?_
    have last : Shows [_] [] := .hidden (by rw [dedent]; rfl) shows_nil
    simpa using (Statements.shown h' all).append last
  | inline colon listed free =>
    rw [Stmt.shownBlock_eq]
    exact .hidden (by rw [colon]; rfl) (free.shown_behind (Listed.shown (Plain.shown h) rfl listed))

theorem Branches.shown (h : ShownBy expression Expr.shown) (h' : ShownBy block Stmt.shownBlock) :
    ShownBy (Branches expression block) fun r =>
      Stmt.shownBranches r.1 ++ Stmt.shownOtherwise r.2 := by
  intro ts r branches
  induction branches with
  | nil => exact shows_nil
  | otherwise kind body => exact .hidden (by rw [kind]; rfl) (h' body)
  | cons kind kind' condition body _ ih =>
    simp only [Stmt.shownBranches, List.append_assoc]
    refine .hidden (by rw [kind]; rfl) (.hidden (by rw [kind']; rfl) ?_)
    exact (h condition).append ((h' body).append ih)

theorem Parameter.shown : ShownBy Parameter fun name => [.kind (.name name)] := by
  rintro _ name ⟨t, rfl, kind⟩
  exact .cons kind (by rw [kind]; rfl) shows_nil

theorem Statement.shown (h : ShownBy expression Expr.shown) (h' : ShownBy block Stmt.shownBlock) :
    ShownBy (Statement expression block) Stmt.shown := by
  intro ts stmt statement
  cases statement with
  | plain one free => exact free.shown_behind (Plain.shown h one)
  | choose _ kind condition body rest =>
    rw [Stmt.shown, Stmt.shownBranches, List.append_assoc, List.append_assoc]
    refine .hidden (by rw [kind]; rfl) ((h condition).append ((h' body).append ?_))
    exact Branches.shown h h' rest
  | loop _ kind names kind' subject body =>
    rw [Stmt.shown]
    refine .hidden (by rw [kind]; rfl) (.cons names (by rw [names]; rfl) ?_)
    exact .hidden (by rw [kind']; rfl) ((h subject).append (h' body))
  | function _ names params body =>
    rw [Stmt.shown, List.map_eq_flatMap]
    refine .cons names (by rw [names]; rfl) (Shows.append ?_ (h' body))
    exact Between.shown (Listed.shown Parameter.shown rfl) rfl rfl params

theorem StatementAt.shown (depth : Nat) : ShownBy (StatementAt depth) Stmt.shown := by
  induction depth with
  | zero => exact Statement.shown (ExpressionAt.shown 0) never_shown
  | succ depth ih =>
    exact Statement.shown (ExpressionAt.shown _) (Suite.shown (ExpressionAt.shown depth) ih)

end Statements

end Phrase

/-- **A program shows what its tokens say**: the traversal of an accepted program lists exactly the
names, literals and operators that stand before the end of the input, in the same order. -/
theorem Program.forall₂_shown {tokens : List Token} {p : Program} (h : ofTokens? tokens = .ok p) :
    List.Forall₂ Shown.Of p.shown
      ((tokens.takeWhile fun t => !t.kind.isMark .endOfInput).filter (·.kind.isShown)) :=
  Phrase.Statements.shown (Phrase.StatementAt.shown _) (statements_of_ofTokens? h)

/-- A function with a comma behind its last parameter, a suite, a choice on one line, a map with a
name and a string as keys, and tokens behind the end of the input. -/
theorem Program.forall₂_shown_function :
    let tokens : List Token := [.name "f", .mark .leftParen, .name "a", .mark .comma, .name "b",
      .mark .comma, .mark .rightParen, .mark .colon, .mark .newline, .mark .indent,
      .mark .ifWord, .name "a", .mark .lessEqual, .mark .minus, .name "b", .mark .colon, .name "x",
      .mark .plusAssign, .mark .leftBrace, .name "k", .mark .colon, .mark .trueWord, .mark .comma,
      .string "s", .mark .colon, .name "a", .mark .dot, .name "p", .mark .comma, .mark .rightBrace,
      .mark .semicolon, .mark .newline, .mark .elseWord, .mark .colon, .mark .returnWord,
      .number 2, .mark .newline, .mark .dedent, .mark .endOfInput, .name "y",
      .mark .endOfInput].map fun k => ⟨k, "", 1, 1⟩
    let program : Program := ⟨[.function 1 "f" ["a", "b"] [.choose 1
      [(.binary .lessEqual (.variable "a") (.unary .negate (.variable "b")),
        [.assign 1 (.variable "x") (some .add)
          (.map [("k", .bool true), ("s", .property (.variable "a") "p")])])]
      (some [.leave 1 (some (.number 2))])]]⟩
    ofTokens? tokens = .ok program ∧ List.Forall₂ Shown.Of program.shown
      ((tokens.takeWhile fun t => !t.kind.isMark .endOfInput).filter (·.kind.isShown)) := by
  intro tokens program
  have accepted : ofTokens? tokens = .ok program := by rfl
  exact ⟨accepted, forall₂_shown accepted⟩

end SheetScript
