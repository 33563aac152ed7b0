import Mathlib.Order.MinMax
import SheetScript.Proofs.Program.Accepts

/-!
# How deep programs are

The limit on the nesting counts the levels of the parser. Chains take none: operands joined from the
left and the suffixes of an operand are read one after another, and each of them makes the tree one
step deeper.

* `Program.depth` counts the nodes on the longest path from a statement to a leaf, `Program.links`
  the steps to a left operand on such a path.
* `Phrase.Within phrase bound` says of the grammar that trees are at most `bound` deeper than they
  have links. A level of expressions adds seven: one for each family of operators, one for an
  exponent and one for a suffix or a list.
* `Program.depth_le`: apart from its links an accepted program is at most seven times as deep as the
  limit. `exists_deep_chain`: there is no such bound with them.
-/

namespace SheetScript

open Token

/-! ## Depth and links -/

namespace Expr

mutual

/-- The nodes on the longest path from an expression to a leaf. -/
def depth : Expr → Nat
  | number _ | string _ | bool _ | null | .variable _ => 1
  | binary _ left right | logical _ left right => max left.depth right.depth + 1
  | unary _ operand => operand.depth + 1
  | call callee args => max callee.depth (depthAll args) + 1
  | property object _ => object.depth + 1
  | index object position => max object.depth position.depth + 1
  | array items => depthAll items + 1
  | map entries => depthEntries entries + 1

/-- The depth of the deepest of several expressions. -/
def depthAll : List Expr → Nat
  | [] => 0
  | e :: rest => max e.depth (depthAll rest)

/-- The depth of the deepest value of a map. -/
def depthEntries : List (String × Expr) → Nat
  | [] => 0
  | (_, value) :: rest => max value.depth (depthEntries rest)

end

mutual

/-- The most steps to the left operand of a chain, or to the operand of a suffix, on a path. -/
def links : Expr → Nat
  | number _ | string _ | bool _ | null | .variable _ => 0
  | binary .power left right => max left.links right.links
  | binary _ left right | logical _ left right => max (left.links + 1) right.links
  | unary _ operand => operand.links
  | call callee args => max (callee.links + 1) (linksAll args)
  | property object _ => object.links + 1
  | index object position => max (object.links + 1) position.links
  | array items => linksAll items
  | map entries => linksEntries entries

/-- The most links of several expressions. -/
def linksAll : List Expr → Nat
  | [] => 0
  | e :: rest => max e.links (linksAll rest)

/-- The most links of the values of a map. -/
def linksEntries : List (String × Expr) → Nat
  | [] => 0
  | (_, value) :: rest => max value.links (linksEntries rest)

end

end Expr

/-- The target as an expression. -/
def Target.toExpr : Target → Expr
  | .variable name => .variable name
  | index object position => .index object position

namespace Stmt

mutual

/-- The nodes on the longest path from a statement to a leaf. -/
def depth : Stmt → Nat
  | expression _ value => value.depth + 1
  | assign _ target _ value => max target.toExpr.depth value.depth + 1
  | choose _ branches otherwise => max (depthBranches branches) (depthOtherwise otherwise) + 1
  | loop _ _ items body => max items.depth (depthBlock body) + 1
  | function _ _ _ body => depthBlock body + 1
  | leave _ none => 1
  | leave _ (some value) => value.depth + 1

/-- The depth of the deepest condition or block of several branches. -/
def depthBranches : List (Expr × List Stmt) → Nat
  | [] => 0
  | (condition, body) :: rest => max condition.depth (max (depthBlock body) (depthBranches rest))

/-- The depth of the block for when no condition holds. -/
def depthOtherwise : Option (List Stmt) → Nat
  | none => 0
  | some body => depthBlock body

/-- The depth of the deepest statement of a block. -/
def depthBlock : List Stmt → Nat
  | [] => 0
  | stmt :: rest => max stmt.depth (depthBlock rest)

end

mutual

/-- The most links on a path from a statement. -/
def links : Stmt → Nat
  | expression _ value => value.links
  | assign _ target _ value => max target.toExpr.links value.links
  | choose _ branches otherwise => max (linksBranches branches) (linksOtherwise otherwise)
  | loop _ _ items body => max items.links (linksBlock body)
  | function _ _ _ body => linksBlock body
  | leave _ none => 0
  | leave _ (some value) => value.links

/-- The most links of the conditions and blocks of several branches. -/
def linksBranches : List (Expr × List Stmt) → Nat
  | [] => 0
  | (condition, body) :: rest => max condition.links (max (linksBlock body) (linksBranches rest))

/-- The most links of the block for when no condition holds. -/
def linksOtherwise : Option (List Stmt) → Nat
  | none => 0
  | some body => linksBlock body

/-- The most links of the statements of a block. -/
def linksBlock : List Stmt → Nat
  | [] => 0
  | stmt :: rest => max stmt.links (linksBlock rest)

end

end Stmt

/-- The nodes on the longest path from a statement of a program to a leaf. -/
def Program.depth (p : Program) : Nat := Stmt.depthBlock p.statements

/-- The most links on a path from a statement of a program. -/
def Program.links (p : Program) : Nat := Stmt.linksBlock p.statements

/-! ## Links are steps -/

namespace Expr

mutual

theorem links_le_depth : ∀ e : Expr, e.links ≤ e.depth
  | number _ | string _ | bool _ | null | .variable _ => Nat.zero_le _
  | binary op left right => by
    have l := links_le_depth left
    have r := links_le_depth right
    cases op <;> simp only [links, depth] <;> omega
  | logical _ left right => by
    have l := links_le_depth left
    have r := links_le_depth right
    simp only [links, depth]
    omega
  | unary _ operand => by
    have x := links_le_depth operand
    simp only [links, depth]
    omega
  | call callee args => by
    have x := links_le_depth callee
    have all := linksAll_le_depthAll args
    simp only [links, depth]
    omega
  | property object _ => by
    have x := links_le_depth object
    simp only [links, depth]
    omega
  | index object position => by
    have x := links_le_depth object
    have i := links_le_depth position
    simp only [links, depth]
    omega
  | array items => by
    have all := linksAll_le_depthAll items
    simp only [links, depth]
    omega
  | map entries => by
    have all := linksEntries_le_depthEntries entries
    simp only [links, depth]
    omega

theorem linksAll_le_depthAll : ∀ es : List Expr, linksAll es ≤ depthAll es
  | [] => Nat.le_refl _
  | e :: rest => max_le_max (links_le_depth e) (linksAll_le_depthAll rest)

theorem linksEntries_le_depthEntries :
    ∀ entries : List (String × Expr), linksEntries entries ≤ depthEntries entries
  | [] => Nat.le_refl _
  | (_, value) :: rest => max_le_max (links_le_depth value) (linksEntries_le_depthEntries rest)

end

end Expr

namespace Stmt

mutual

theorem links_le_depth : ∀ stmt : Stmt, stmt.links ≤ stmt.depth
  | expression _ value => by
    have x := value.links_le_depth
    simp only [links, depth]
    omega
  | assign _ target _ value => by
    have x := target.toExpr.links_le_depth
    have y := value.links_le_depth
    simp only [links, depth]
    omega
  | choose _ branches otherwise => by
    have all := linksBranches_le_depthBranches branches
    have last := linksOtherwise_le_depthOtherwise otherwise
    simp only [links, depth]
    omega
  | loop _ _ items body => by
    have x := items.links_le_depth
    have all := linksBlock_le_depthBlock body
    simp only [links, depth]
    omega
  | function _ _ _ body => by
    have all := linksBlock_le_depthBlock body
    simp only [links, depth]
    omega
  | leave _ none => Nat.zero_le _
  | leave _ (some value) => by
    have x := value.links_le_depth
    simp only [links, depth]
    omega

theorem linksBranches_le_depthBranches :
    ∀ branches : List (Expr × List Stmt), linksBranches branches ≤ depthBranches branches
  | [] => Nat.le_refl _
  | (condition, body) :: rest => max_le_max condition.links_le_depth <|
    max_le_max (linksBlock_le_depthBlock body) (linksBranches_le_depthBranches rest)

theorem linksOtherwise_le_depthOtherwise :
    ∀ otherwise : Option (List Stmt), linksOtherwise otherwise ≤ depthOtherwise otherwise
  | none => Nat.le_refl _
  | some body => linksBlock_le_depthBlock body

theorem linksBlock_le_depthBlock : ∀ stmts : List Stmt, linksBlock stmts ≤ depthBlock stmts
  | [] => Nat.le_refl _
  | stmt :: rest => max_le_max (links_le_depth stmt) (linksBlock_le_depthBlock rest)

end

end Stmt

namespace Phrase

theorem Listed.exists_of_mem {α : Type} {separator : Mark} {item : Phrase α} {ts : List Token}
    {as : List α} (h : Listed separator item ts as) : ∀ a ∈ as, ∃ ts', item ts' a := by
  induction h with
  | nil => exact fun _ mem => absurd mem List.not_mem_nil
  | last one => exact List.forall_mem_singleton.2 ⟨_, one⟩
  | cons one _ _ ih => exact List.forall_mem_cons.2 ⟨⟨_, one⟩, ih⟩

/-! ## Expressions -/

section Expressions

variable {inner deeper operand : Phrase Expr} {bound bound' : Nat}

/-- The expressions are at most so much deeper than they have links. -/
def Within (phrase : Phrase Expr) (bound : Nat) : Prop :=
  ∀ ⦃ts e⦄, phrase ts e → e.depth ≤ bound + e.links

theorem Within.mono (h : Within inner bound) (le : bound ≤ bound') : Within inner bound' :=
  fun _ _ x => (h x).trans (Nat.add_le_add_right le _)

theorem within_never (bound : Nat) : Within Never bound := fun _ _ h => h.elim

/-- A joiner makes a node with the left operand as its link. -/
def Links (joiner? : Kind → Option (Expr → Expr → Expr)) : Prop :=
  ∀ ⦃k join⦄, joiner? k = some join → ∀ l r : Expr,
    (join l r).depth = max l.depth r.depth + 1 ∧ (join l r).links = max (l.links + 1) r.links

theorem links_join? {operator? : Mark → Option Operator}
    (chains : ∀ m, operator? m ≠ some .power) : Links (Parser.join? operator?) := by
  intro k join joins l r
  unfold Parser.join? at joins
  split at joins
  · next m =>
    obtain ⟨op, known, rfl⟩ := Option.map_eq_some_iff.1 joins
    refine ⟨by rw [Expr.depth], ?_⟩
    cases op with
    | power => exact absurd known (chains m)
    | _ => rw [Expr.links]; exact nofun
  · cases joins

theorem links_connect? (m : Mark) (op : Connective) : Links (Parser.connect? m op) := by
  intro k join joins l r
  unfold Parser.connect? at joins
  split at joins
  · split at joins
    · cases joins
      exact ⟨by rw [Expr.depth], by rw [Expr.links]⟩
    · cases joins
  · cases joins

/-- However long a chain is, apart from its links it is one deeper than its operands. -/
theorem Within.chain {joiner? : Kind → Option (Expr → Expr → Expr)} (links : Links joiner?)
    (h : Within operand bound) : Within (Chain joiner? operand) (bound + 1) := by
  intro ts e chain
  induction chain with
  | operand one => exact h.mono (Nat.le_succ _) one
  | @join _ _ _ left right _ _ joins r ih =>
    obtain ⟨depth, links⟩ := links joins left right
    have operand := h r
    omega

/-- There are five families of operators. -/
theorem Within.disjunction (h : Within operand bound) : Within (Disjunction operand) (bound + 5) :=
  have products := h.chain (links_join? fun m => by cases m <;> simp [Parser.product?])
  have sums := products.chain (links_join? fun m => by cases m <;> simp [Parser.sum?])
  have comparisons := sums.chain (links_join? fun m => by cases m <;> simp [Parser.comparison?])
  (comparisons.chain (links_connect? .andWord .and)).chain (links_connect? .orWord .or)

theorem depthAll_le {separator : Mark} (h : Within inner bound) {ts : List Token} {es : List Expr}
    (listed : Listed separator inner ts es) : Expr.depthAll es ≤ bound + Expr.linksAll es := by
  have each := listed.exists_of_mem
  clear listed
  induction es with
  | nil => exact Nat.zero_le _
  | cons e es ih =>
    obtain ⟨⟨_, stands⟩, others⟩ := List.forall_mem_cons.1 each
    have first := h stands
    have rest := ih others
    simp only [Expr.depthAll, Expr.linksAll]
    omega

theorem depthEntries_le {separator : Mark} (h : Within inner bound) {ts : List Token}
    {entries : List (String × Expr)} (listed : Listed separator (Entry inner) ts entries) :
    Expr.depthEntries entries ≤ bound + Expr.linksEntries entries := by
  have each := listed.exists_of_mem
  clear listed
  induction entries with
  | nil => exact Nat.zero_le _
  | cons entry entries ih =>
    obtain ⟨⟨_, stands⟩, others⟩ := List.forall_mem_cons.1 each
    obtain ⟨_, _, value⟩ := stands
    have first := h value
    have rest := ih others
    simp only [Expr.depthEntries, Expr.linksEntries]
    omega

/-- However many suffixes an operand has, apart from its links it is one deeper than the expressions
in its brackets. -/
theorem Within.suffixed (h : Within inner bound) : Within (Suffixed inner) (bound + 1) := by
  intro ts e suffixed
  induction suffixed with
  | primary one =>
    cases one with
    | number | string | name | bool | null =>
      simp only [Expr.depth]
      omega
    | group grouped =>
      obtain ⟨_, x, _⟩ := grouped
      exact h.mono (Nat.le_succ _) x
    | array items =>
      obtain ⟨_, listed, _⟩ := items
      have all := depthAll_le h listed
      simp only [Expr.depth, Expr.links]
      omega
    | map entries =>
      obtain ⟨_, listed, _⟩ := entries
      have all := depthEntries_le h listed
      simp only [Expr.depth, Expr.links]
      omega
  | call _ args ih =>
    obtain ⟨_, listed, _⟩ := args
    have all := depthAll_le h listed
    simp only [Expr.depth, Expr.links]
    omega
  | property _ _ _ ih =>
    simp only [Expr.depth, Expr.links]
    omega
  | index _ position ih =>
    obtain ⟨_, i, _⟩ := position
    have inside := h i
    simp only [Expr.depth, Expr.links]
    omega

theorem Within.signed (h : Within inner bound) (h' : Within deeper bound) :
    Within (Signed inner deeper) (bound + 2) := by
  intro ts e signed
  cases signed with
  | sign _ x =>
    have operand := h' x
    simp only [Expr.depth, Expr.links]
    omega
  | base x => exact h.suffixed.mono (Nat.le_succ _) x
  | power l _ r =>
    have base := h.suffixed l
    have exponent := h' r
    simp only [Expr.depth, Expr.links]
    omega

theorem within_signedAt (depth : Nat) : Within (SignedAt depth) (7 * depth + 2) := by
  induction depth with
  | zero => exact (within_never 0).signed (within_never 0)
  | succ depth ih => exact ih.disjunction.signed (ih.mono (by omega))

theorem within_expressionAt (depth : Nat) : Within (ExpressionAt depth) (7 * depth) := by
  cases depth with
  | zero => exact within_never _
  | succ depth => exact (within_signedAt depth).disjunction

end Expressions

/-! ## Statements -/

section Statements

variable {expression : Phrase Expr} {statement : Phrase Stmt} {block : Phrase (List Stmt)}
  {bound bound' : Nat}

/-- The statements are at most so much deeper than they have links. -/
def StmtWithin (phrase : Phrase Stmt) (bound : Nat) : Prop :=
  ∀ ⦃ts stmt⦄, phrase ts stmt → stmt.depth ≤ bound + stmt.links

/-- The statements of the blocks are at most so much deeper than they have links. -/
def BlockWithin (phrase : Phrase (List Stmt)) (bound : Nat) : Prop :=
  ∀ ⦃ts stmts⦄, phrase ts stmts → Stmt.depthBlock stmts ≤ bound + Stmt.linksBlock stmts

theorem stmtWithin_plain (h : Within expression bound) :
    StmtWithin (Plain expression) (bound + 1) := by
  intro ts stmt plain
  cases plain with
  | expression _ e =>
    have value := h e
    simp only [Stmt.depth, Stmt.links]
    omega
  | @assign _ _ _ e _ target _ _ x named _ v =>
    have same : target.toExpr = e := by
      unfold Parser.target? at named
      split at named <;> cases named <;> rfl
    have left := h x
    have value := h v
    simp only [Stmt.depth, Stmt.links, same]
    omega
  | leave =>
    simp only [Stmt.depth]
    omega
  | leaveWith _ _ e =>
    have value := h e
    simp only [Stmt.depth, Stmt.links]
    omega

theorem blockWithin_statements (h : StmtWithin statement bound) :
    BlockWithin (Statements statement) bound := by
  intro ts stmts all
  induction all with
  | nil => exact Nat.zero_le _
  | cons _ one _ ih =>
    have first := h one
    simp only [Stmt.depthBlock, Stmt.linksBlock]
    omega

theorem blockWithin_listed {separator : Mark} (h : StmtWithin statement bound) :
    BlockWithin (Listed separator statement) bound := by
  intro ts stmts listed
  have each := listed.exists_of_mem
  clear listed
  induction stmts with
  | nil => exact Nat.zero_le _
  | cons stmt stmts ih =>
    obtain ⟨⟨_, stands⟩, others⟩ := List.forall_mem_cons.1 each
    have first := h stands
    have rest := ih others
    simp only [Stmt.depthBlock, Stmt.linksBlock]
    omega

theorem blockWithin_suite (h : Within expression bound) (h' : StmtWithin statement (bound + 1)) :
    BlockWithin (Suite expression statement) (bound + 1) := by
  intro ts stmts suite
  cases suite with
  | indented _ _ _ all => exact blockWithin_statements h' all
  | inline _ listed => exact blockWithin_listed (stmtWithin_plain h) listed

theorem branches_le (h : Within expression bound) (h' : BlockWithin block bound) {ts : List Token}
    {r : List (Expr × List Stmt) × Option (List Stmt)} (branches : Branches expression block ts r) :
    max (Stmt.depthBranches r.1) (Stmt.depthOtherwise r.2) ≤
      bound + max (Stmt.linksBranches r.1) (Stmt.linksOtherwise r.2) := by
  induction branches with
  | nil => exact Nat.zero_le _
  | otherwise _ b =>
    have body := h' b
    simp only [Stmt.depthBranches, Stmt.depthOtherwise, Stmt.linksBranches, Stmt.linksOtherwise]
    omega
  | cons _ _ c b _ ih =>
    have condition := h c
    have body := h' b
    simp only [Stmt.depthBranches, Stmt.linksBranches] at ih ⊢
    omega

theorem stmtWithin_statement (h : Within expression bound) (h' : BlockWithin block bound) :
    StmtWithin (Statement expression block) (bound + 1) := by
  intro ts stmt statement
  cases statement with
  | plain one => exact stmtWithin_plain h one
  | choose _ _ c b rest =>
    have condition := h c
    have body := h' b
    have others := branches_le h h' rest
    simp only [Stmt.depth, Stmt.links, Stmt.depthBranches, Stmt.linksBranches] at others ⊢
    omega
  | loop _ _ _ _ x b =>
    have subject := h x
    have body := h' b
    simp only [Stmt.depth, Stmt.links]
    omega
  | function _ _ _ b =>
    have body := h' b
    simp only [Stmt.depth, Stmt.links]
    omega

theorem stmtWithin_statementAt (depth : Nat) : StmtWithin (StatementAt depth) (7 * depth + 1) := by
  induction depth with
  | zero => exact stmtWithin_statement (within_expressionAt 0) fun _ _ h => h.elim
  | succ depth ih =>
    have suite := blockWithin_suite (within_expressionAt depth) ih
    refine stmtWithin_statement (within_expressionAt _) fun ts stmts h => (suite h).trans ?_
    omega

end Statements

end Phrase

/-! ## Long chains -/

namespace Expr

/-- A variable with so many properties, one of the other. -/
def properties : Nat → Expr
  | 0 => .variable "x"
  | count + 1 => .property (properties count) "a"

theorem depth_properties (count : Nat) : (properties count).depth = count + 1 := by
  induction count with
  | zero => rfl
  | succ count ih => rw [properties, depth, ih]

theorem links_properties (count : Nat) : (properties count).links = count := by
  induction count with
  | zero => rfl
  | succ count ih => rw [properties, links, ih]

theorem text_properties (count : Nat) :
    (properties count).text = "x" ++ String.join (List.replicate count ".a") := by
  induction count with
  | zero => rfl
  | succ count ih =>
    rw [properties, text, ih, List.replicate_succ', String.join_append]
    simp [String.append_assoc]

theorem printable_properties (count : Nat) : (properties count).Printable := by
  induction count with
  | zero => exact .variable (by decide)
  | succ count ih => exact .property ih (by cases count <;> rfl) (by decide)

theorem numbers_properties (count : Nat) : (properties count).numbers = [] := by
  induction count with
  | zero => rfl
  | succ count ih => rw [properties, numbers, ih]

theorem nesting_properties (count : Nat) : (properties count).nesting = 0 := by
  induction count with
  | zero => rfl
  | succ count ih => rw [properties, nesting, ih]

end Expr

/-- However many properties are read one of the other, no level is taken. -/
theorem Program.ofSource?_properties (count : Nat) :
    ofSource? ("x" ++ String.join (List.replicate count ".a")) =
      .ok ⟨[.expression 1 (Expr.properties count)]⟩ := by
  have printable := Expr.printable_properties count
  have spells := printable.spells fun x mem => by
    rw [Expr.numbers_properties] at mem
    exact absurd mem List.not_mem_nil
  obtain ⟨c, front, text, begins, -⟩ := printable.startsText
  obtain ⟨ts, newline, last, tokens, eq, first, newline_kind, last_kind⟩ :=
    tokenize_of_spells spells .last (Expr.kinds_ne_nil _) ⟨c, front, text, begins⟩
  have no_fault : firstFault? (ts ++ [newline, last]) = none := by
    refine Parser.firstFault?_eq_none ?_
    rw [List.map_append, eq, List.map_cons, List.map_singleton, newline_kind, last_kind]
    exact Expr.closed_faultless.append (printable.kinds_closed Expr.closed_faultless)
      (by simp [Expr.Faultless])
  have read := (Parser.yields_program printable eq first newline_kind last_kind).1
    (by rw [Expr.nesting_properties]; decide)
  rw [← Expr.text_properties, ofSource?, tokens, ofTokens?, no_fault,
    Parser.ofList_eq_behind ts newline last_kind, StateT.run, read]
  rfl

/-! ## Programs -/

namespace Program

/-- **How deep a program is, its links tell**: the depth of an accepted program is at least its
links, and apart from them at most seven times the limit and one. So it is at most sixteen times the
limit if the links are less than nine times the limit. -/
theorem depth_le {source : String} {p : Program} (h : ofSource? source = .ok p) :
    p.links ≤ p.depth ∧ p.depth ≤ 7 * Parser.nestingLimit + 1 + p.links ∧
      (p.links < 9 * Parser.nestingLimit → p.depth ≤ 16 * Parser.nestingLimit) := by
  have bound : p.depth ≤ 7 * Parser.nestingLimit + 1 + p.links :=
    Phrase.blockWithin_statements (Phrase.stmtWithin_statementAt _) (statements_of_ofTokens? h)
  refine ⟨Stmt.linksBlock_le_depthBlock p.statements, bound, fun few => ?_⟩
  omega

/-- As many properties, one of the other, as the limit surely bounds. -/
theorem depth_le_properties :
    ∃ p, ofSource? ("x" ++ String.join (List.replicate 575 ".a")) = .ok p ∧
      p.links < 9 * Parser.nestingLimit ∧ p.depth ≤ 16 * Parser.nestingLimit := by
  have few : links ⟨[.expression 1 (Expr.properties 575)]⟩ < 9 * Parser.nestingLimit := by
    simp only [links, Stmt.linksBlock, Stmt.links, Expr.links_properties, Nat.max_zero]
    decide
  exact ⟨_, ofSource?_properties 575, few, (depth_le (ofSource?_properties 575)).2.2 few⟩

/-- **The limit does not bound the depth**: a variable with 1024 properties, one of the other, is
accepted. -/
theorem exists_deep_chain :
    ∃ p, ofSource? ("x" ++ String.join (List.replicate 1024 ".a")) = .ok p ∧
      ¬ p.depth ≤ 16 * Parser.nestingLimit := by
  refine ⟨_, ofSource?_properties 1024, ?_⟩
  simp only [depth, Stmt.depthBlock, Stmt.depth, Expr.depth_properties, Nat.max_zero]
  decide

end Program

end SheetScript
