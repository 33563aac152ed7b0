import SheetScript.Proofs.Program.Alongside

/-!
# Statements on two lists that part at a block

Two lists of tokens part at the colon of a block. If the block behind it is read alike in both, and
the same tokens stand behind the block, then so is every statement and every program, wherever the
colon stands in them.

* `Stmt.unlined` leaves out the lines that statements start on, which may differ.
* `Rejoins` says of what stands behind the colon in the lists that it is read alike as a block.
* `Walks` compares two parsers of statements on such lists. There is one rule for each thing that a
  parser does; `walks_program` is the result.
-/

namespace SheetScript

open Token

namespace Stmt

mutual

/-- A statement with no lines. -/
def unlined : Stmt → Stmt
  | expression _ value => expression 0 value
  | assign _ target op value => assign 0 target op value
  | choose _ branches otherwise => choose 0 (unlinedBranches branches) (unlinedOtherwise otherwise)
  | loop _ name items body => loop 0 name items (unlinedAll body)
  | function _ name params body => function 0 name params (unlinedAll body)
  | leave _ value => leave 0 value

/-- Branches with no lines. -/
def unlinedBranches : List (Expr × List Stmt) → List (Expr × List Stmt)
  | [] => []
  | (condition, body) :: rest => (condition, unlinedAll body) :: unlinedBranches rest

/-- The block for when no condition holds, with no lines. -/
def unlinedOtherwise : Option (List Stmt) → Option (List Stmt)
  | none => none
  | some body => some (unlinedAll body)

/-- A block with no lines. -/
def unlinedAll : List Stmt → List Stmt
  | [] => []
  | stmt :: rest => stmt.unlined :: unlinedAll rest

end

theorem unlinedAll_eq_map (block : List Stmt) : unlinedAll block = block.map unlined := by
  induction block with
  | nil => rfl
  | cons stmt rest ih => rw [unlinedAll, ih, List.map_cons]

theorem unlinedBranches_eq_map (branches : List (Expr × List Stmt)) :
    unlinedBranches branches = branches.map fun b => (b.1, unlinedAll b.2) := by
  induction branches with
  | nil => rfl
  | cons branch rest ih => rw [unlinedBranches, ih, List.map_cons]

end Stmt

/-- A program with no lines. -/
def Program.unlined (p : Program) : Program := ⟨Stmt.unlinedAll p.statements⟩

namespace Parser

open Stmt

variable {α β γ δ : Type} {ts ts' rest rest' : Tokens}

/-- Two statements are the same but for their lines. -/
def SameStmt (s s' : Stmt) : Prop := s.unlined = s'.unlined

/-- Two blocks are the same but for their lines. -/
def SameBlock (block block' : List Stmt) : Prop := unlinedAll block = unlinedAll block'

theorem sameBlock_cons {s s' : Stmt} {block block' : List Stmt} (h : SameStmt s s')
    (h' : SameBlock block block') : SameBlock (s :: block) (s' :: block') := by
  have head : s.unlined = s'.unlined := h
  have rest : unlinedAll block = unlinedAll block' := h'
  rw [SameBlock, unlinedAll, unlinedAll, head, rest]

theorem SameBlock.reverse {block block' : List Stmt} (h : SameBlock block block') :
    SameBlock block.reverse block'.reverse := by
  rw [SameBlock, unlinedAll_eq_map, unlinedAll_eq_map] at h ⊢
  rw [List.map_reverse, List.map_reverse, h]

/-! ## Simple statements -/

section Plain

variable {X X' r : List Kind} {expression : Parser Expr}

theorem keeps_atStatementEnd (parted : Parted X X') {f g : Bool → Parser γ} {W : γ → γ → Prop}
    (h : ∀ ended, Keeps X X' W r (f ended) (g ended)) :
    Keeps X X' W r (atStatementEnd >>= f) (atStatementEnd >>= g) := by
  intro ts ts' are are'
  have same : atEnd ts'.kind = atEnd ts.kind := by
    rw [kind_of_are are, kind_of_are are']
    cases r with
    | cons k r => rfl
    | nil =>
      have ended : ∀ {k}, IsStop k → (atEnd k = true ↔ k ≠ .mark .colon) := by
        rintro k (rfl | rfl | rfl | rfl) <;> simp [atEnd]
      rw [List.nil_append, List.nil_append, Bool.eq_iff_iff, ended parted.stop, ended parted.stop',
        Ne, Ne, parted.colon]
  rw [atStatementEnd_bind, atStatementEnd_bind, same]
  exact h _ are are'

/-- A simple statement is read alike behind a common front. -/
theorem keeps_plainStatement (parted : Parted X X') (each : Steady X X' expression) :
    Keeps X X' SameStmt r (plainStatement expression) (plainStatement expression) := by
  refine keeps_sees parted (not_isStop (by decide)) (fun r' eq => ?_) ?_
  · subst eq
    refine keeps_line fun n n' => keeps_skip (keeps_atStatementEnd parted fun ended => ?_)
    cases ended with
    | true => exact keeps_pure rfl
    | false => exact each.bind fun value _ _ => keeps_pure rfl
  · refine keeps_line fun n n' => each.bind fun e r' _ => ?_
    refine keeps_peek parted (pure (.expression n e)) (pure (.expression n' e)) ?_ (keeps_pure rfl)
      fun k r'' eq => ?_
    · rintro k (rfl | rfl | rfl | rfl) <;> exact ⟨rfl, rfl⟩
    · subst eq
      cases assignment? k with
      | none => exact keeps_pure rfl
      | some op =>
        cases target? e with
        | none => exact keeps_fail _ _
        | some target => exact keeps_skip (each.bind fun value _ _ => keeps_pure rfl)

end Plain

/-! ## Statements on two lists that part at a block -/

/-- Two lists are alike up to a colon that has not been taken, or all the way. -/
inductive Side (Y Y' : List Kind) : Tokens → Tokens → Prop
  | before (r : List Kind) {ts ts' : Tokens} (h : ts.Are (r ++ .mark .colon :: Y))
      (h' : ts'.Are (r ++ .mark .colon :: Y')) : Side Y Y' ts ts'
  | behind (kinds : List Kind) {ts ts' : Tokens} (h : ts.Are kinds) (h' : ts'.Are kinds) :
      Side Y Y' ts ts'

variable {Y Y' : List Kind}

theorem Side.kind (h : Side Y Y' ts ts') : ts'.kind = ts.kind := by
  cases h with
  | before r h h' =>
    rw [kind_of_are h, kind_of_are h']
    cases r <;> rfl
  | behind kinds h h' => rw [kind_of_are h, kind_of_are h']

theorem Side.tail (h : Side Y Y' ts ts') (other : ts.kind ≠ .mark .colon) :
    Side Y Y' ts.tail ts'.tail := by
  cases h with
  | before r h h' =>
    cases r with
    | nil => exact absurd (kind_of_are h) other
    | cons k r => exact .before r (are_tail h) (are_tail h')
  | behind kinds h h' =>
    have last : ∀ {ts : Tokens}, ts.Are [] → ts.tail.Are [] := fun h =>
      ⟨h.1, by rw [Tokens.tail, List.map_eq_nil_iff.1 h.2]; rfl⟩
    cases kinds with
    | nil => exact .behind [] (last h) (last h')
    | cons k kinds => exact .behind kinds (are_tail h) (are_tail h')

theorem Side.closed (h : Side Y Y' ts ts') : ts.Closed ∧ ts'.Closed := by
  cases h with
  | before r h h' => exact ⟨h.1, h'.1⟩
  | behind kinds h h' => exact ⟨h.1, h'.1⟩

/-- Two parsers read alike, and take from each list what they take. -/
def Walks (Y Y' : List Kind) (V : α → β → Prop) (ts ts' : Tokens) (p : Parser α) (p' : Parser β) :
    Prop :=
  Side Y Y' ts ts' → Alike V (fun rest rest' => Side Y Y' rest rest' ∧
    rest.ahead.length ≤ ts.ahead.length ∧ rest'.ahead.length ≤ ts'.ahead.length) (p ts) (p' ts')

section Rules

variable {V : α → β → Prop} {W : γ → δ → Prop} {p : Parser α} {p' : Parser β}

theorem walks_pure {a : α} {b : β} (h : V a b) : Walks Y Y' V ts ts' (pure a) (pure b) :=
  fun side => .read h ⟨side, Nat.le_refl _, Nat.le_refl _⟩

theorem walks_fail (c c' : Complaint) : Walks Y Y' V ts ts' (fail c) (fail c') := fun _ => .failed

theorem Walks.bind {f : α → Parser γ} {g : β → Parser δ} (h : Walks Y Y' V ts ts' p p')
    (h' : ∀ ⦃a b rest rest'⦄, V a b → p ts = .ok (a, rest) → p' ts' = .ok (b, rest') →
      rest.ahead.length ≤ ts.ahead.length → rest'.ahead.length ≤ ts'.ahead.length →
      Walks Y Y' W rest rest' (f a) (g b)) :
    Walks Y Y' W ts ts' (p >>= f) (p' >>= g) := by
  intro side
  have run : (p >>= f) ts = (p ts >>= fun r => f r.1 r.2) := rfl
  have run' : (p' >>= g) ts' = (p' ts' >>= fun r => g r.1 r.2) := rfl
  have read := h side
  rw [run, run']
  generalize first : p ts = x, first' : p' ts' = x' at read
  cases read with
  | failed => exact .failed
  | read value left =>
    obtain ⟨side, shorter, shorter'⟩ := left
    refine (h' value first first' shorter shorter' side).mono fun rest rest' left => ?_
    exact ⟨left.1, Nat.le_trans left.2.1 shorter, Nat.le_trans left.2.2 shorter'⟩

theorem walks_peek {f : Kind → Parser γ} {g : Kind → Parser δ}
    (h : Walks Y Y' W ts ts' (f ts.kind) (g ts.kind)) :
    Walks Y Y' W ts ts' (peek >>= f) (peek >>= g) := by
  intro side
  rw [peek_bind, peek_bind, side.kind]
  exact h side

theorem walks_sees {m : Mark} {f : Bool → Parser γ} {g : Bool → Parser δ}
    (h : Walks Y Y' W ts ts' (f (ts.kind.isMark m)) (g (ts.kind.isMark m))) :
    Walks Y Y' W ts ts' (sees m >>= f) (sees m >>= g) := by
  intro side
  rw [sees_bind, sees_bind, side.kind]
  exact h side

theorem walks_line {f : Nat → Parser γ} {g : Nat → Parser δ}
    (h : ∀ n n', Walks Y Y' W ts ts' (f n) (g n')) :
    Walks Y Y' W ts ts' (line >>= f) (line >>= g) := fun side => h _ _ side

theorem walks_room {f : List Token → Parser γ} {g : List Token → Parser δ}
    (h : ∀ room room', ts.ahead.length < room.length → ts'.ahead.length < room'.length →
      Walks Y Y' W ts ts' (f room) (g room')) :
    Walks Y Y' W ts ts' (room >>= f) (room >>= g) :=
  fun side => h _ _ (Nat.lt_succ_self _) (Nat.lt_succ_self _) side

theorem length_tail_lt (closed : ts.Closed) (some : ts.kind ≠ .mark .endOfInput) :
    ts.tail.ahead.length < ts.ahead.length := by
  obtain ⟨ahead, last⟩ := ts
  cases ahead with
  | nil => exact absurd closed some
  | cons t ahead => exact Nat.lt_succ_self _

/-- A token that is neither the colon nor the end is taken from both lists. -/
theorem walks_skip {f : Unit → Parser γ} {g : Unit → Parser δ} (other : ts.kind ≠ .mark .colon)
    (some : ts.kind ≠ .mark .endOfInput)
    (h : ts.tail.ahead.length < ts.ahead.length → ts'.tail.ahead.length < ts'.ahead.length →
      Walks Y Y' W ts.tail ts'.tail (f ()) (g ())) :
    Walks Y Y' W ts ts' (skip >>= f) (skip >>= g) := by
  intro side
  have shorter := length_tail_lt side.closed.1 some
  have shorter' := length_tail_lt side.closed.2 (side.kind ▸ some)
  refine (h shorter shorter' (side.tail other)).mono fun rest rest' left => ?_
  exact ⟨left.1, Nat.le_trans left.2.1 (Nat.le_of_lt shorter),
    Nat.le_trans left.2.2 (Nat.le_of_lt shorter')⟩

theorem walks_take {m : Mark} (inner : m ≠ .colon ∧ m ≠ .endOfInput) {f : Bool → Parser γ}
    {g : Bool → Parser δ}
    (yes : ts.tail.ahead.length < ts.ahead.length → ts'.tail.ahead.length < ts'.ahead.length →
      Walks Y Y' W ts.tail ts'.tail (f true) (g true))
    (no : Walks Y Y' W ts ts' (f false) (g false)) :
    Walks Y Y' W ts ts' (take m >>= f) (take m >>= g) := by
  intro side
  rw [take_bind, take_bind, Tokens.at?, Tokens.at?, side.kind]
  split_ifs with seen
  · have kind := Kind.isMark_iff.1 seen
    refine walks_skip (f := fun _ => f true) (g := fun _ => g true) ?_ ?_ yes side
    · rw [kind]
      exact fun eq => inner.1 (Kind.mark.inj eq)
    · rw [kind]
      exact fun eq => inner.2 (Kind.mark.inj eq)
  · exact no side

end Rules

theorem parted_nil : Parted [] [] where
  stop := .inr (.inr (.inr rfl))
  stop' := .inr (.inr (.inr rfl))
  colon := Iff.rfl
  noValue := fun _ _ eq => by cases eq
  noValue' := fun _ _ eq => by cases eq

/-- What is read alike behind every common front is read alike up to a block. -/
theorem walks_of_keeps (parted : Parted (.mark .colon :: Y) (.mark .colon :: Y'))
    {V : α → β → Prop} {p : Parser α} {p' : Parser β}
    (h : ∀ {X X'}, Parted X X' → ∀ r, Keeps X X' V r p p') : Walks Y Y' V ts ts' p p' := by
  have length : ∀ {ts rest : Tokens} {r r' X : List Kind}, r' <:+ r → ts.Are (r ++ X) →
      rest.Are (r' ++ X) → rest.ahead.length ≤ ts.ahead.length := by
    intro ts rest r r' X suffix are are'
    have shorter := suffix.length_le
    rw [← List.length_map Token.kind, are'.2, ← List.length_map Token.kind, are.2,
      List.length_append, List.length_append]
    omega
  intro side
  cases side with
  | before r are are' =>
    refine (h parted r are are').mono fun rest rest' left => ?_
    obtain ⟨r', suffix, left, left'⟩ := left
    exact ⟨.before r' left left', length suffix are left, length suffix are' left'⟩
  | behind kinds are are' =>
    have append : ∀ {ts : Tokens} {kinds}, ts.Are kinds ↔ ts.Are (kinds ++ []) := by
      intro ts kinds
      rw [List.append_nil]
    refine (h parted_nil kinds (append.1 are) (append.1 are')).mono fun rest rest' left => ?_
    obtain ⟨r', suffix, left, left'⟩ := left
    exact ⟨.behind r' (append.2 left) (append.2 left'), length suffix (append.1 are) left,
      length suffix (append.1 are') left'⟩

/-! ## Headers -/

/-- The search for the end of a header depends on kinds alone, and only on those up to where no
header can end. -/
theorem headerEnds_congr {X X' : List Kind}
    (ends : ∀ ⦃rest rest' : List Token⦄, rest.map Token.kind = X → rest'.map Token.kind = X' →
      (rest.head?.any (·.kind.isMark .colon) = rest'.head?.any (·.kind.isMark .colon)) ∧
        ∀ depth, 1 ≤ depth → headerEnds depth rest = headerEnds depth rest') (r : List Kind) :
    ∀ ⦃ts ts' : List Token⦄, ts.map Token.kind = r ++ X → ts'.map Token.kind = r ++ X' →
      (ts.head?.any (·.kind.isMark .colon) = ts'.head?.any (·.kind.isMark .colon)) ∧
        ∀ depth, 1 ≤ depth → headerEnds depth ts = headerEnds depth ts' := by
  induction r with
  | nil => exact ends
  | cons k r ih =>
    intro ts ts' eq eq'
    obtain ⟨t, ts, rfl, rfl, later⟩ := List.map_eq_cons_iff.1 eq
    obtain ⟨t', ts', rfl, same, later'⟩ := List.map_eq_cons_iff.1 eq'
    refine ⟨by simp [same], fun depth some => ?_⟩
    obtain ⟨colon, rest⟩ := ih later later'
    rw [headerEnds, headerEnds, same, colon, rest _ some, rest _ (Nat.succ_pos depth)]
    split
    · rfl
    · split_ifs with last
      · rfl
      · exact rest _ (by omega)
    · rfl
    · rfl
    · rfl

/-- Whether a header of a function stands at the front does not depend on where the lists part. -/
theorem header_congr {X X' : List Kind} (parted : Parted X X')
    (ends : ∀ ⦃rest rest' : List Token⦄, rest.map Token.kind = X → rest'.map Token.kind = X' →
      (rest.head?.any (·.kind.isMark .colon) = rest'.head?.any (·.kind.isMark .colon)) ∧
        ∀ depth, 1 ≤ depth → headerEnds depth rest = headerEnds depth rest') {r : List Kind}
    {ts ts' : List Token} (eq : ts.map Token.kind = r ++ X) (eq' : ts'.map Token.kind = r ++ X') :
    header ts = header ts' := by
  have stopped : ∀ {X : List Kind} {ts : List Token}, IsStop (front X (.mark .endOfInput)) →
      ts.map Token.kind = X → header ts = false ∧
        (ts.head?.any (·.kind.isMark .leftParen)) = false := by
    rintro X ts stop rfl
    cases ts with
    | nil => exact ⟨rfl, rfl⟩
    | cons t ts =>
      have stop : IsStop t.kind := stop
      refine ⟨header_of_not_name (fun name eq => ?_) ts, ?_⟩
      · rw [eq] at stop
        rcases stop with eq | eq | eq | eq <;> cases eq
      · rcases stop with eq | eq | eq | eq <;> simp [eq, Kind.isMark]
  cases r with
  | nil => rw [(stopped parted.stop eq).1, (stopped parted.stop' eq').1]
  | cons k r =>
    obtain ⟨t, ts, rfl, rfl, later⟩ := List.map_eq_cons_iff.1 eq
    obtain ⟨t', ts', rfl, same, later'⟩ := List.map_eq_cons_iff.1 eq'
    by_cases named : ∃ name, t.kind = .name name
    swap
    · rw [header_of_not_name (not_exists.1 named), header_of_not_name]
      rw [same]
      exact not_exists.1 named
    obtain ⟨name, first⟩ := named
    rw [header_eq first, header_eq (same.trans first)]
    cases r with
    | nil => rw [(stopped parted.stop later).2, (stopped parted.stop' later').2, Bool.false_and,
        Bool.false_and]
    | cons k r =>
      obtain ⟨u, us, rfl, rfl, rest⟩ := List.map_eq_cons_iff.1 later
      obtain ⟨u', us', rfl, same, rest'⟩ := List.map_eq_cons_iff.1 later'
      rw [List.tail_cons, List.tail_cons,
        (headerEnds_congr ends r rest rest').2 1 (Nat.le_refl 1)]
      simp [same]

/-! ## Statements -/

/-- What is behind the colon of a block. -/
def body (expression : Parser Expr) (statement : Parser Stmt) : Parser (List Stmt) := do
  if ← take .newline then
    if ← take .indent then suiteFrom statement (← room) []
    else fail .missingIndentedBlock
  else
    let stmts ← inlineFrom expression (← room) []
    endStatement
    return stmts

/-- Behind the colon, a block is read alike with these kinds of tokens ahead, and then the same
kinds are ahead. -/
structure Rejoins (Y Y' : List Kind) : Prop where
  parted : Parted (.mark .colon :: Y) (.mark .colon :: Y')
  noHeader : ∀ {rest : List Token}, rest.map Token.kind = Y → ∀ depth,
    headerEnds (depth + 1) rest = false
  noHeader' : ∀ {rest : List Token}, rest.map Token.kind = Y' → ∀ depth,
    headerEnds (depth + 1) rest = false
  block : ∀ depth {ts ts'}, ts.Are Y → ts'.Are Y' → Alike SameBlock
    (fun rest rest' => (∃ kinds, rest.Are kinds ∧ rest'.Are kinds) ∧
      rest.ahead.length ≤ ts.ahead.length ∧ rest'.ahead.length ≤ ts'.ahead.length)
    (body (expressionAt depth) (statementAt depth) ts)
    (body (expressionAt depth) (statementAt depth) ts')

section Statements

variable {expression : Parser Expr} {statement : Parser Stmt} {block : Parser (List Stmt)}

theorem walks_separatorsFrom (room room' : List Token) (ts ts' : Tokens)
    (fits : ts.ahead.length < room.length) (fits' : ts'.ahead.length < room'.length) :
    Walks Y Y' Eq ts ts' (skipSeparatorsFrom room) (skipSeparatorsFrom room') := by
  induction room generalizing room' ts ts' with
  | nil => cases fits
  | cons _ room ih =>
    cases room' with
    | nil => cases fits'
    | cons _ room' =>
      have next : ts.tail.ahead.length < ts.ahead.length →
          ts'.tail.ahead.length < ts'.ahead.length →
          Walks Y Y' Eq ts.tail ts'.tail (skipSeparatorsFrom room) (skipSeparatorsFrom room') := by
        intro shorter shorter'
        rw [List.length_cons] at fits fits'
        exact ih room' _ _ (by omega) (by omega)
      refine walks_peek ?_
      split
      · next kind => exact walks_skip (by simp [kind]) (by simp [kind]) next
      · next kind => exact walks_skip (by simp [kind]) (by simp [kind]) next
      · exact walks_pure rfl

theorem walks_separators : Walks Y Y' Eq ts ts' skipSeparators skipSeparators :=
  walks_room fun room room' fits fits' => walks_separatorsFrom room room' ts ts' fits fits'

theorem walks_endStatement : Walks Y Y' Eq ts ts' endStatement endStatement := by
  refine walks_peek ?_
  split
  · next kind =>
    exact walks_skip (f := pure) (g := pure) (by simp [kind]) (by simp [kind]) fun _ _ =>
      walks_pure rfl
  · next kind =>
    exact walks_skip (f := pure) (g := pure) (by simp [kind]) (by simp [kind]) fun _ _ =>
      walks_pure rfl
  · exact walks_pure rfl
  · exact walks_pure rfl
  · exact walks_fail _ _

theorem walks_atStatementEnd {f g : Bool → Parser γ} {W : γ → γ → Prop}
    (h : ∀ ended, Walks Y Y' W ts ts' (f ended) (g ended)) :
    Walks Y Y' W ts ts' (atStatementEnd >>= f) (atStatementEnd >>= g) := by
  intro side
  rw [atStatementEnd_bind, atStatementEnd_bind, side.kind]
  exact h _ side

theorem walks_atFunction (rejoins : Rejoins Y Y') {f g : Bool → Parser Stmt}
    {W : Stmt → Stmt → Prop} (h : Walks Y Y' W ts ts' (f (header ts.ahead)) (g (header ts.ahead))) :
    Walks Y Y' W ts ts' (atFunction >>= f) (atFunction >>= g) := by
  intro side
  have same : header ts'.ahead = header ts.ahead := by
    cases side with
    | before r are are' =>
      refine (header_congr rejoins.parted ?_ are.2 are'.2).symm
      intro rest rest' eq eq'
      obtain ⟨t, rest, rfl, kind, later⟩ := List.map_eq_cons_iff.1 eq
      obtain ⟨t', rest', rfl, kind', later'⟩ := List.map_eq_cons_iff.1 eq'
      refine ⟨by simp [kind, kind'], fun depth some => ?_⟩
      obtain ⟨depth, rfl⟩ := Nat.exists_eq_succ_of_ne_zero (Nat.ne_of_gt some)
      have colon : Expr.IsInner (.mark .colon) := show Mark.colon ∉ _ by decide
      rw [headerEnds_inner (kind ▸ colon), headerEnds_inner (kind' ▸ colon),
        rejoins.noHeader later, rejoins.noHeader' later']
    | behind kinds are are' =>
      rw [← List.append_nil kinds] at are are'
      refine (header_congr parted_nil ?_ are.2 are'.2).symm
      intro rest rest' eq eq'
      rw [List.map_eq_nil_iff.1 eq, List.map_eq_nil_iff.1 eq']
      exact ⟨rfl, fun _ _ => rfl⟩
  have run : (atFunction >>= f) ts = f (header ts.ahead) ts := rfl
  have run' : (atFunction >>= g) ts' = g (header ts'.ahead) ts' := rfl
  rw [run, run', same]
  exact h side

/-! ### Parameters -/

theorem keeps_parametersFrom {X X' : List Kind} (parted : Parted X X') (room room' : List Token)
    (r : List Kind) (before : List String) (fits : r.length < room.length)
    (fits' : r.length < room'.length) :
    Keeps X X' Eq r (parametersFrom room before) (parametersFrom room' before) := by
  induction room generalizing room' r before with
  | nil => cases fits
  | cons _ room ih =>
    cases room' with
    | nil => cases fits'
    | cons _ room' =>
      refine keeps_name parted fun param r' eq => ?_
      split
      · exact keeps_fail _ _
      refine keeps_take parted (not_isStop (by decide)) (fun r'' eq' => ?_) (keeps_pure rfl)
      refine keeps_sees parted (not_isStop (by decide)) (fun _ _ => keeps_pure rfl) ?_
      subst eq eq'
      simp only [List.length_cons] at fits fits'
      exact ih room' r'' _ (by omega) (by omega)

theorem walks_parameters (parted : Parted (.mark .colon :: Y) (.mark .colon :: Y'))
    (kind : ts.kind = .mark .leftParen) : Walks Y Y' Eq ts ts' parameters parameters := by
  refine walks_skip (by simp [kind]) (by simp [kind]) fun _ _ => walks_of_keeps parted ?_
  intro X X' parted r
  have close : ∀ r (params : List String), Keeps X X' Eq r
      (expect .rightParen .unclosedParameters >>= fun _ => pure params)
      (expect .rightParen .unclosedParameters >>= fun _ => pure params) := fun r params =>
    keeps_expect parted (not_isStop (by decide)) fun _ _ => keeps_pure rfl
  refine keeps_sees parted (not_isStop (by decide)) (fun _ _ => ?_) ?_
  · exact keeps_room fun _ _ _ _ => close _ []
  · refine keeps_room fun room room' fits fits' => ?_
    refine (keeps_parametersFrom parted room room' r [] fits fits').bind fun params _ eq r' _ => ?_
    subst eq
    exact close r' params

/-! ### Statements with blocks -/

/-- A parser of statements or blocks reads alike wherever the lists part. -/
def WalksAll (Y Y' : List Kind) (V : α → α → Prop) (p : Parser α) : Prop :=
  ∀ ts ts', Walks Y Y' V ts ts' p p

theorem rest_of_name {c : Complaint} {s : String} (h : name c ts = .ok (s, rest)) :
    rest = ts.tail := by
  unfold name at h
  rw [peek_bind] at h
  cases kind : ts.kind with
  | name text =>
    rw [kind] at h
    cases h
    rfl
  | _ =>
    rw [kind] at h
    cases h

theorem walks_function (rejoins : Rejoins Y Y') (blocks : WalksAll Y Y' SameBlock block)
    (found : header ts.ahead = true) :
    Walks Y Y' SameStmt ts ts' (functionStatement block) (functionStatement block) := by
  refine walks_line fun n n' => ?_
  have named : Walks Y Y' Eq ts ts' (name .unexpectedToken) (name .unexpectedToken) :=
    walks_of_keeps rejoins.parted fun parted r => by
      have text := keeps_name (c := .unexpectedToken) (r := r) parted (W := Eq) (f := pure)
        (g := pure) fun s r' _ => keeps_pure rfl
      rwa [bind_pure] at text
  refine named.bind fun name _ rest rest' eq read _ _ _ => ?_
  subst eq
  have kind : rest.kind = .mark .leftParen := by
    obtain ⟨ahead, last⟩ := ts
    obtain rfl := rest_of_name read
    cases ahead with
    | nil => cases found
    | cons t ahead => exact kind_of_header found
  refine (walks_parameters rejoins.parted kind).bind fun params _ rest rest' eq _ _ _ _ => ?_
  subst eq
  refine (blocks rest rest').bind fun body body' _ _ same _ _ _ _ => walks_pure ?_
  have same : Stmt.unlinedAll body = Stmt.unlinedAll body' := same
  rw [SameStmt, unlined, unlined, same]

theorem walks_branchesFrom (each : WalksAll Y Y' Eq expression)
    (blocks : WalksAll Y Y' SameBlock block) (room room' : List Token) (ts ts' : Tokens)
    (before before' : List (Expr × List Stmt))
    (same : unlinedBranches before = unlinedBranches before')
    (fits : ts.ahead.length < room.length) (fits' : ts'.ahead.length < room'.length) :
    Walks Y Y' (fun r r' => unlinedBranches r.1 = unlinedBranches r'.1 ∧
        unlinedOtherwise r.2 = unlinedOtherwise r'.2) ts ts'
      (branchesFrom expression block room before)
      (branchesFrom expression block room' before') := by
  have reversed : ∀ {before before' : List (Expr × List Stmt)},
      unlinedBranches before = unlinedBranches before' →
      unlinedBranches before.reverse = unlinedBranches before'.reverse := by
    intro before before' same
    rw [unlinedBranches_eq_map, unlinedBranches_eq_map] at same ⊢
    rw [List.map_reverse, List.map_reverse, same]
  induction room generalizing room' ts ts' before before' with
  | nil => cases fits
  | cons _ room ih =>
    cases room' with
    | nil => cases fits'
    | cons _ room' =>
      refine walks_take (by decide) (fun shorter shorter' => ?_) (walks_pure ⟨reversed same, rfl⟩)
      refine walks_take (by decide) (fun _ _ => ?_) ?_
      · refine (each _ _).bind fun condition _ rest rest' eq _ _ le le' => ?_
        subst eq
        refine (blocks _ _).bind fun body body' rest rest' alike _ _ _ _ => ?_
        have alike : unlinedAll body = unlinedAll body' := alike
        simp only [List.length_cons] at fits fits'
        refine ih room' _ _ _ _ ?_ (by omega) (by omega)
        rw [unlinedBranches, unlinedBranches, alike, same]
      · refine (blocks _ _).bind fun body body' rest rest' alike _ _ _ _ =>
          walks_pure ⟨reversed same, ?_⟩
        have alike : unlinedAll body = unlinedAll body' := alike
        rw [unlinedOtherwise, unlinedOtherwise, alike]

theorem walks_choose (each : WalksAll Y Y' Eq expression) (blocks : WalksAll Y Y' SameBlock block)
    (kind : ts.kind = .mark .ifWord) : Walks Y Y' SameStmt ts ts'
      (chooseStatement expression block) (chooseStatement expression block) := by
  refine walks_line fun n n' => walks_skip (by simp [kind]) (by simp [kind]) fun _ _ => ?_
  refine (each _ _).bind fun condition _ rest rest' eq _ _ _ _ => ?_
  subst eq
  refine (blocks _ _).bind fun body body' rest rest' alike _ _ _ _ => ?_
  have alike : unlinedAll body = unlinedAll body' := alike
  refine walks_room fun room room' fits fits' => ?_
  refine (walks_branchesFrom each blocks room room' rest rest' [(condition, body)]
    [(condition, body')] ?_ fits fits').bind fun r r' _ _ both _ _ _ _ => walks_pure ?_
  · simp only [unlinedBranches, alike]
  · rw [SameStmt, unlined, unlined, both.1, both.2]

theorem walks_loop (rejoins : Rejoins Y Y') (each : WalksAll Y Y' Eq expression)
    (blocks : WalksAll Y Y' SameBlock block) (kind : ts.kind = .mark .forWord) :
    Walks Y Y' SameStmt ts ts' (loopStatement expression block)
      (loopStatement expression block) := by
  refine walks_line fun n n' => walks_skip (by simp [kind]) (by simp [kind]) fun _ _ => ?_
  have front : WalksAll Y Y' Eq (do
      let name ← name .missingLoopVariable
      expect .inWord .missingIn
      return name) := fun _ _ => walks_of_keeps rejoins.parted fun parted r =>
    keeps_name parted fun s r' _ => keeps_expect parted (not_isStop (by decide)) fun _ _ =>
      keeps_pure rfl
  have run := (front ts.tail ts'.tail).bind (f := fun name => do
      let subject ← expression
      return Stmt.loop n name subject (← block)) (g := fun name => do
      let subject ← expression
      return Stmt.loop n' name subject (← block)) (W := SameStmt) ?_
  · simpa only [bind_assoc, pure_bind] using run
  intro name _ rest rest' eq _ _ _ _
  subst eq
  refine (each _ _).bind fun subject _ rest rest' eq _ _ _ _ => ?_
  subst eq
  refine (blocks _ _).bind fun body body' rest rest' alike _ _ _ _ => walks_pure ?_
  have alike : unlinedAll body = unlinedAll body' := alike
  rw [SameStmt, unlined, unlined, alike]

theorem walks_statementWith (rejoins : Rejoins Y Y') (each : WalksAll Y Y' Eq expression)
    (plain : WalksAll Y Y' SameStmt (plainStatement expression))
    (blocks : WalksAll Y Y' SameBlock block) :
    WalksAll Y Y' SameStmt (statementWith expression block) := by
  intro ts ts'
  refine walks_peek ?_
  split
  · next kind => exact walks_choose each blocks kind
  · next kind => exact walks_loop rejoins each blocks kind
  · refine walks_atFunction rejoins ?_
    split
    · next found => exact walks_function rejoins blocks found
    · refine (plain _ _).bind fun s s' _ _ same _ _ _ _ => ?_
      exact walks_endStatement.bind fun _ _ _ _ _ _ _ _ _ => walks_pure same

/-! ### Blocks -/

theorem walks_suiteFrom (stmts : WalksAll Y Y' SameStmt statement) (progress : TakesSome statement)
    (room room' : List Token) (ts ts' : Tokens) (before before' : List Stmt)
    (same : SameBlock before before') (fits : ts.ahead.length < room.length)
    (fits' : ts'.ahead.length < room'.length) :
    Walks Y Y' SameBlock ts ts' (suiteFrom statement room before)
      (suiteFrom statement room' before') := by
  induction room generalizing room' ts ts' before before' with
  | nil => cases fits
  | cons _ room ih =>
    cases room' with
    | nil => cases fits'
    | cons _ room' =>
      unfold suiteFrom
      refine walks_separators.bind fun _ _ rest rest' _ _ _ le le' => ?_
      refine walks_take (by decide) (fun _ _ => walks_pure same.reverse) (walks_sees ?_)
      split
      · exact walks_fail _ _
      · intro side
        refine (stmts rest rest').bind (fun s s' _ _ alike read read' _ _ => ?_) side
        have shorter := progress side.closed.1 read
        have shorter' := progress side.closed.2 read'
        rw [List.length_cons] at fits fits'
        exact ih room' _ _ _ _ (sameBlock_cons alike same) (by omega) (by omega)

theorem walks_inlineFrom (plain : WalksAll Y Y' SameStmt (plainStatement expression))
    (room room' : List Token) (ts ts' : Tokens) (before before' : List Stmt)
    (same : SameBlock before before') (fits : ts.ahead.length < room.length)
    (fits' : ts'.ahead.length < room'.length) :
    Walks Y Y' SameBlock ts ts' (inlineFrom expression room before)
      (inlineFrom expression room' before') := by
  induction room generalizing room' ts ts' before before' with
  | nil => cases fits
  | cons _ room ih =>
    cases room' with
    | nil => cases fits'
    | cons _ room' =>
      unfold inlineFrom
      refine (plain ts ts').bind fun s s' rest rest' alike _ _ le le' => ?_
      have all := sameBlock_cons alike same
      refine walks_take (by decide) (fun shorter shorter' => walks_atStatementEnd
        fun ended => ?_) (walks_pure all.reverse)
      split
      · exact walks_pure all.reverse
      · rw [List.length_cons] at fits fits'
        exact ih room' _ _ _ _ all (by omega) (by omega)

theorem walks_body (plain : WalksAll Y Y' SameStmt (plainStatement expression))
    (stmts : WalksAll Y Y' SameStmt statement) (progress : TakesSome statement) :
    WalksAll Y Y' SameBlock (body expression statement) := by
  intro ts ts'
  refine walks_take (by decide) (fun _ _ => walks_take (by decide) (fun _ _ => ?_) ?_) ?_
  · exact walks_room fun room room' fits fits' =>
      walks_suiteFrom stmts progress room room' _ _ [] [] rfl fits fits'
  · exact walks_fail _ _
  · refine walks_room fun room room' fits fits' => ?_
    refine (walks_inlineFrom plain room room' _ _ [] [] rfl fits fits').bind
      fun all all' _ _ same _ _ _ _ => ?_
    exact walks_endStatement.bind fun _ _ _ _ _ _ _ _ _ => walks_pure same

theorem walks_suite (rejoins : Rejoins Y Y') (depth : Nat)
    (plain : WalksAll Y Y' SameStmt (plainStatement (expressionAt depth)))
    (stmts : WalksAll Y Y' SameStmt (statementAt depth)) :
    WalksAll Y Y' SameBlock (suite (expressionAt depth) (statementAt depth)) := by
  have progress : TakesSome (statementAt depth) :=
    Takes.takesSome (takes_statementAt depth) (Phrase.StatementAt.ne_nil depth)
  have eq : suite (expressionAt depth) (statementAt depth) =
      expect .colon .missingColon >>= fun _ => body (expressionAt depth) (statementAt depth) := rfl
  intro ts ts' side
  rw [eq, expect_bind, expect_bind, Tokens.at?, Tokens.at?, side.kind]
  split_ifs with colon
  swap
  · exact .failed
  have kind := Kind.isMark_iff.1 colon
  have some : ts.kind ≠ .mark .endOfInput := by simp [kind]
  have shorter := length_tail_lt side.closed.1 some
  have shorter' := length_tail_lt side.closed.2 (side.kind ▸ some)
  have further : Side Y Y' ts.tail ts'.tail → Alike SameBlock (fun rest rest' =>
      Side Y Y' rest rest' ∧ rest.ahead.length ≤ ts.ahead.length ∧
        rest'.ahead.length ≤ ts'.ahead.length)
      (body (expressionAt depth) (statementAt depth) ts.tail)
      (body (expressionAt depth) (statementAt depth) ts'.tail) := by
    refine fun side => (walks_body plain stmts progress _ _ side).mono fun rest rest' left => ?_
    exact ⟨left.1, Nat.le_trans left.2.1 (Nat.le_of_lt shorter),
      Nat.le_trans left.2.2 (Nat.le_of_lt shorter')⟩
  cases side with
  | before r are are' =>
    cases r with
    | cons k r => exact further (.before r (are_tail are) (are_tail are'))
    | nil =>
      -- the lists part at this colon
      refine (rejoins.block depth (are_tail are) (are_tail are')).mono fun rest rest' left => ?_
      obtain ⟨⟨kinds, left, left'⟩, le, le'⟩ := left
      exact ⟨.behind kinds left left', Nat.le_trans le (Nat.le_of_lt shorter),
        Nat.le_trans le' (Nat.le_of_lt shorter')⟩
  | behind kinds are are' =>
    cases kinds with
    | nil => exact absurd (kind_of_are are) some
    | cons k kinds => exact further (.behind kinds (are_tail are) (are_tail are'))

theorem walks_statementAt (rejoins : Rejoins Y Y') (depth : Nat) :
    WalksAll Y Y' SameStmt (statementAt depth) := by
  have each : ∀ depth, WalksAll Y Y' Eq (expressionAt depth) := fun depth _ _ =>
    walks_of_keeps rejoins.parted fun parted r => steady_expressionAt parted depth r
  have plain : ∀ depth, WalksAll Y Y' SameStmt (plainStatement (expressionAt depth)) :=
    fun depth _ _ => walks_of_keeps rejoins.parted fun parted r =>
      keeps_plainStatement parted (steady_expressionAt parted depth)
  induction depth with
  | zero => exact walks_statementWith rejoins (each 0) (plain 0) fun _ _ => walks_fail _ _
  | succ depth ih =>
    exact walks_statementWith rejoins (each _) (plain _)
      (walks_suite rejoins depth (plain depth) ih)

end Statements

/-! ## Programs -/

theorem walks_statementsFrom {statement : Parser Stmt} (stmts : WalksAll Y Y' SameStmt statement)
    (progress : TakesSome statement) (room room' : List Token) (ts ts' : Tokens)
    (before before' : List Stmt) (same : SameBlock before before')
    (fits : ts.ahead.length < room.length) (fits' : ts'.ahead.length < room'.length) :
    Walks Y Y' SameBlock ts ts' (statementsFrom statement room before)
      (statementsFrom statement room' before') := by
  induction room generalizing room' ts ts' before before' with
  | nil => cases fits
  | cons _ room ih =>
    cases room' with
    | nil => cases fits'
    | cons _ room' =>
      unfold statementsFrom
      refine walks_separators.bind fun _ _ rest rest' _ _ _ le le' => walks_sees ?_
      split
      · exact walks_pure same.reverse
      refine walks_sees ?_
      split
      · exact walks_fail _ _
      intro side
      refine (stmts rest rest').bind (fun s s' _ _ alike read read' _ _ => ?_) side
      have shorter := progress side.closed.1 read
      have shorter' := progress side.closed.2 read'
      rw [List.length_cons] at fits fits'
      exact ih room' _ _ _ _ (sameBlock_cons alike same) (by omega) (by omega)

theorem walks_program (rejoins : Rejoins Y Y') :
    WalksAll Y Y' (fun p p' => p.unlined = p'.unlined) program := by
  have progress : TakesSome (statementAt nestingLimit) :=
    Takes.takesSome (takes_statementAt nestingLimit) (Phrase.StatementAt.ne_nil nestingLimit)
  refine fun ts ts' => walks_room fun room room' fits fits' => ?_
  refine (walks_statementsFrom (walks_statementAt rejoins nestingLimit) progress room room' ts ts'
    [] [] rfl fits fits').bind fun all all' _ _ same _ _ _ _ => walks_pure ?_
  have same : unlinedAll all = unlinedAll all' := same
  rw [Program.unlined, Program.unlined, same]

end Parser

end SheetScript
