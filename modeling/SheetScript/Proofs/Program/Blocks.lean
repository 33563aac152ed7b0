import SheetScript.Proofs.Program.Parting

/-!
# Blocks on one line and on lines of their own

Simple statements behind the colon of a block may stand on its line, with semicolons between them,
or indented on lines of their own. The two forms are the same block wherever they stand.

* `inlined` and `indented` are the tokens of the forms, `IsSimple` says what the statements are.
* `alike_statements` reads the statements of both one after another, and `rejoins_blocks` is that
  the forms are read alike, with the same tokens behind them.
* `Program.unlined_ofTokens?` is the result for programs.
-/

namespace SheetScript

open Token

namespace Parser

open Stmt

variable {α : Type} {ts rest : Tokens}

/-! ## The two forms of a block -/

/-- The tokens of statements on the line of a colon. -/
def inlined (parts : List (List Kind)) : List Kind :=
  [.mark .semicolon].intercalate parts ++ [.mark .newline]

/-- The tokens of statements on lines of their own. -/
def indented (parts : List (List Kind)) : List Kind :=
  .mark .newline :: .mark .indent :: (parts.flatMap (· ++ [.mark .newline]) ++ [.mark .dedent])

theorem inlined_singleton (s : List Kind) : inlined [s] = s ++ [.mark .newline] := by
  simp [inlined]

theorem inlined_cons_cons (s t : List Kind) (parts : List (List Kind)) :
    inlined (s :: t :: parts) = s ++ .mark .semicolon :: inlined (t :: parts) := by
  simp [inlined, List.intercalate]

/-- The tokens of a simple statement. -/
def IsSimple (s : List Kind) : Prop :=
  ∃ (depth : Nat) (ts : List Token) (stmt : Stmt),
    ts.map Token.kind = s ∧ Phrase.Plain (Phrase.ExpressionAt depth) ts stmt

variable {s : List Kind} {parts : List (List Kind)}

theorem IsSimple.balanced (h : IsSimple s) : Balanced false s := by
  obtain ⟨depth, ts, stmt, rfl, plain⟩ := h
  exact Phrase.balanced_plain (Phrase.balanced_expressionAt depth) plain

theorem IsSimple.ne_nil (h : IsSimple s) : s ≠ [] := by
  obtain ⟨depth, ts, stmt, rfl, plain⟩ := h
  exact fun none => Phrase.Plain.ne_nil (Phrase.ExpressionAt.ne_nil depth) plain
    (List.map_eq_nil_iff.1 none)

/-- No token of a simple statement ends it, and it is not the first of another statement. -/
theorem IsSimple.inner (h : IsSimple s) : ∀ k ∈ s, (∀ m ∈ [Mark.ifWord, .forWord, .semicolon,
    .newline, .indent, .dedent, .endOfInput], k ≠ .mark m) ∧ atEnd k = false := by
  intro k mem
  have other := (h.balanced.kind_ne k mem).1
  refine ⟨other, ?_⟩
  unfold atEnd
  split <;> simp_all

theorem IsSimple.exists_cons (h : IsSimple s) : ∃ k r, s = k :: r ∧ atEnd k = false ∧
    ∀ m ∈ [Mark.ifWord, .forWord, .semicolon, .newline, .indent, .dedent, .endOfInput],
      k ≠ .mark m := by
  obtain ⟨k, r, rfl⟩ := List.exists_cons_of_ne_nil h.ne_nil
  obtain ⟨other, goes_on⟩ := h.inner k (List.mem_cons_self ..)
  exact ⟨k, r, rfl, goes_on, other⟩

/-- Behind the first statement of a line stands a semicolon or the end of the line. -/
theorem inlined_cons (s : List Kind) (parts : List (List Kind)) : ∃ k more,
    inlined (s :: parts) = s ++ k :: more ∧ (k = .mark .semicolon ∨ k = .mark .newline) := by
  cases parts with
  | nil => exact ⟨_, _, inlined_singleton s, .inr rfl⟩
  | cons t parts => exact ⟨_, _, inlined_cons_cons s t parts, .inl rfl⟩

/-! ### No header and no value behind the colon -/

theorem headerEnds_inlined (some : parts ≠ []) (simple : ∀ s ∈ parts, IsSimple s) {q : List Kind}
    {ts : List Token} (eq : ts.map Token.kind = inlined parts ++ q) (depth : Nat) :
    headerEnds (depth + 1) ts = false := by
  induction parts generalizing ts with
  | nil => exact absurd rfl some
  | cons s parts ih =>
    obtain ⟨first, later⟩ := List.forall_mem_cons.1 simple
    cases parts with
    | nil =>
      rw [inlined_singleton, List.append_assoc] at eq
      obtain ⟨us, rest, rfl, here, eq⟩ := List.map_eq_append_iff.1 eq
      obtain ⟨t, rest, rfl, kind, -⟩ := List.map_eq_cons_iff.1 eq
      rw [first.balanced.passes here _ _ (Nat.succ_pos depth), headerEnds, kind]
    | cons t parts =>
      rw [inlined_cons_cons, List.append_assoc] at eq
      obtain ⟨us, rest, rfl, here, eq⟩ := List.map_eq_append_iff.1 eq
      obtain ⟨t, rest, rfl, kind, eq⟩ := List.map_eq_cons_iff.1 eq
      have semicolon : Expr.IsInner (.mark .semicolon) := show Mark.semicolon ∉ _ by decide
      rw [first.balanced.passes here _ _ (Nat.succ_pos depth), headerEnds_inner (kind ▸ semicolon)]
      exact ih (List.cons_ne_nil _ _) later eq

/-- What an expression takes is balanced, and it takes something. -/
theorem balanced_of_expressionAt {depth : Nat} {e : Expr} (closed : ts.Closed)
    (read : expressionAt depth ts = .ok (e, rest)) : rest.Closed ∧ ∃ taken, taken ≠ [] ∧
      Balanced false taken ∧ ts.ahead.map Token.kind = taken ++ rest.ahead.map Token.kind := by
  obtain ⟨taken, rfl, -, stands⟩ := takes_expressionAt depth ts closed read
  refine ⟨closed, taken.map Token.kind, ?_, Phrase.balanced_expressionAt depth stands,
    List.map_append⟩
  exact fun none => Phrase.ExpressionAt.ne_nil depth stands (List.map_eq_nil_iff.1 none)

theorem noValue_inlined (some : parts ≠ []) (simple : ∀ s ∈ parts, IsSimple s) (q : List Kind)
    (depth : Nat) : NoValue (.mark .colon :: (inlined parts ++ q)) (expressionAt depth) := by
  intro Y eq ts are e rest read m mem kind
  obtain ⟨-, rfl⟩ := List.cons.inj eq
  obtain ⟨s, parts, rfl⟩ := List.exists_cons_of_ne_nil some
  obtain ⟨closed, taken, -, balanced, split⟩ := balanced_of_expressionAt are.1 read
  obtain ⟨k, more, front, ends⟩ := inlined_cons s parts
  rw [are.2, front, List.append_assoc] at split
  have other := balanced.not_listed (simple s (List.mem_cons_self ..)).balanced ends split.symm
  obtain ⟨ahead, last⟩ := rest
  cases ahead with
  | nil =>
    obtain rfl := Kind.mark.inj (Eq.trans (Eq.symm closed) kind)
    simp at mem
  | cons t ahead => exact other m mem (congrArg Option.some kind)

theorem noValue_newline (kinds : List Kind) (depth : Nat) :
    NoValue (.mark .colon :: .mark .newline :: kinds) (expressionAt depth) := by
  intro Y eq ts are e rest read
  obtain ⟨-, rfl⟩ := List.cons.inj eq
  obtain ⟨-, taken, some, balanced, split⟩ := balanced_of_expressionAt are.1 read
  obtain ⟨k, taken, rfl⟩ := List.exists_cons_of_ne_nil some
  rw [are.2] at split
  have newline : k = .mark .newline := (List.cons.inj split).1.symm
  exact absurd newline ((balanced.kind_ne k (List.mem_cons_self ..)).1 .newline (by decide))

/-! ### Both blocks are read -/

theorem endStatement_newline (kind : ts.kind = .mark .newline) (f : Unit → Parser α) :
    (endStatement >>= f) ts = f () ts.tail := by
  rw [endStatement, bind_assoc, peek_bind, kind]
  rfl

theorem endStatement_fails (goes_on : atEnd ts.kind = false) (f : Unit → Parser α) :
    ∃ e, (endStatement >>= f) ts = .error e := by
  rw [endStatement, bind_assoc, peek_bind]
  generalize ts.kind = kind at goes_on
  split
  all_goals first
    | cases goes_on
    | exact ⟨_, rfl⟩

theorem suiteFrom_dedent {statement : Parser Stmt} {q : List Kind}
    (are : ts.Are (.mark .dedent :: q)) (room : List Token) (before : List Stmt) :
    suiteFrom statement room before ts = .ok (before.reverse, ts.tail) := by
  have kind : ts.kind = .mark .dedent := kind_of_are are
  unfold suiteFrom
  rw [skipSeparators_bind (by simp [kind]) (by simp [kind]), take_bind, Tokens.at?, kind,
    isMark_self, if_pos rfl]
  rfl

/-- A simple statement on a line of its own. -/
theorem statementAt_simple (simple : IsSimple s) {more : List Kind}
    (are : ts.Are (s ++ .mark .newline :: more)) (depth : Nat) (f : Stmt → Parser α) :
    (statementAt depth >>= f) ts = (plainStatement (expressionAt depth) >>= fun stmt =>
      endStatement >>= fun _ => f stmt) ts := by
  obtain ⟨block, eq⟩ : ∃ block, statementAt depth = statementWith (expressionAt depth) block := by
    cases depth <;> exact ⟨_, rfl⟩
  have no_header : header ts.ahead = false := by
    obtain ⟨us, rest, split, rfl, eq⟩ := List.map_eq_append_iff.1 are.2
    obtain ⟨t, rest, rfl, kind, -⟩ := List.map_eq_cons_iff.1 eq
    rw [split]
    refine header_eq_false_of_balanced simple.balanced (fun none => simple.ne_nil ?_) ?_
    · rw [none, List.map_nil]
    · intro t' first
      obtain rfl := Option.some.inj first
      simp [kind, Kind.isMark]
  obtain ⟨k, r, rfl, -, other⟩ := simple.exists_cons
  have kind : ts.kind = k := kind_of_are are
  have no_if := other .ifWord (by decide)
  have no_for := other .forWord (by decide)
  have plain : ∀ f : Bool → Parser Stmt, ∀ g : Stmt → Parser α,
      (atFunction >>= f >>= g) ts = (f false >>= g) ts := by
    intro f g
    have run : (atFunction >>= f >>= g) ts = (f (header ts.ahead) >>= g) ts := rfl
    rw [run, no_header]
  rw [eq, statementWith, bind_assoc, peek_bind, kind]
  split
  · exact absurd rfl no_if
  · exact absurd rfl no_for
  · rw [plain, if_neg Bool.false_ne_true]
    simp only [bind_assoc, pure_bind]

theorem length_of_are {kinds : List Kind} (h : ts.Are kinds) : ts.ahead.length = kinds.length := by
  rw [← h.2, List.length_map]

/-- The first line of an indented block. -/
theorem suiteFrom_simple (simple : IsSimple s) {more : List Kind}
    (are : ts.Are (s ++ .mark .newline :: more)) (depth : Nat) (t : Token) (room : List Token)
    (before : List Stmt) : suiteFrom (statementAt depth) (t :: room) before ts =
      (plainStatement (expressionAt depth) >>= fun stmt => endStatement >>= fun _ =>
        suiteFrom (statementAt depth) room (stmt :: before)) ts := by
  rw [← statementAt_simple simple are]
  obtain ⟨k, r, rfl, -, other⟩ := simple.exists_cons
  have kind : ts.kind = k := kind_of_are are
  have unseen : k.isMark .dedent = false ∧ k.isMark .endOfInput = false :=
    ⟨Bool.eq_false_iff.2 fun seen => other .dedent (by decide) (Kind.isMark_iff.1 seen),
      Bool.eq_false_iff.2 fun seen => other .endOfInput (by decide) (Kind.isMark_iff.1 seen)⟩
  conv_lhs => unfold suiteFrom
  rw [skipSeparators_bind (kind ▸ other .newline (by decide))
    (kind ▸ other .semicolon (by decide)), take_bind, Tokens.at?, kind, unseen.1,
    if_neg Bool.false_ne_true, if_neg Bool.false_ne_true, sees_bind, kind, unseen.2,
    if_neg Bool.false_ne_true]

/-- The rest of a line of statements, behind one of them, those read so far in reverse. -/
def restOfLine (expression : Parser Expr) (room : List Token) (stmts : List Stmt) :
    Parser (List Stmt) := do
  let all ← (do
    if ← take .semicolon then
      if ← atStatementEnd then return stmts.reverse
      else inlineFrom expression room stmts
    else return stmts.reverse)
  endStatement
  return all

theorem inlineFrom_cons (expression : Parser Expr) (t : Token) (room : List Token)
    (before : List Stmt) :
    (inlineFrom expression (t :: room) before >>= fun all => endStatement >>= fun _ => pure all) =
      plainStatement expression >>= fun stmt => restOfLine expression room (stmt :: before) := by
  conv_lhs => unfold inlineFrom
  rw [bind_assoc]
  rfl

theorem restOfLine_fails {c : Kind} (kind : ts.kind = c) (goes_on : atEnd c = false)
    (other : c ≠ .mark .semicolon) (expression : Parser Expr) (room : List Token)
    (stmts : List Stmt) : ∃ e, restOfLine expression room stmts ts = .error e := by
  obtain ⟨e, failed⟩ := endStatement_fails (kind ▸ goes_on) fun _ => pure stmts.reverse
  refine ⟨e, ?_⟩
  rw [restOfLine, bind_assoc, take_bind, Tokens.at?, kind,
    Bool.eq_false_iff.2 (mt Kind.isMark_iff.1 other), if_neg Bool.false_ne_true,
    if_neg Bool.false_ne_true, pure_bind, failed]

theorem restOfLine_newline (kind : ts.kind = .mark .newline) (expression : Parser Expr)
    (room : List Token) (stmts : List Stmt) :
    restOfLine expression room stmts ts = .ok (stmts.reverse, ts.tail) := by
  have other : (Kind.mark .newline).isMark .semicolon = false := by decide
  rw [restOfLine, bind_assoc, take_bind, Tokens.at?, kind, other, if_neg Bool.false_ne_true,
    if_neg Bool.false_ne_true, pure_bind, endStatement_newline kind]
  rfl

theorem restOfLine_semicolon (kind : ts.kind = .mark .semicolon)
    (goes_on : atEnd ts.tail.kind = false) (expression : Parser Expr) (room : List Token)
    (stmts : List Stmt) : restOfLine expression room stmts ts =
      (inlineFrom expression room stmts >>= fun all => endStatement >>= fun _ => pure all)
        ts.tail := by
  rw [restOfLine, bind_assoc, take_bind, Tokens.at?, kind, isMark_self, if_pos rfl, if_pos rfl,
    bind_assoc, atStatementEnd_bind, goes_on, if_neg Bool.false_ne_true]

/-- Two lists part where a statement ends. -/
theorem parted_of_ends {k : Kind} (ends : k = .mark .semicolon ∨ k = .mark .newline)
    (more more' : List Kind) : Parted (k :: more) (.mark .newline :: more') where
  stop := ends.elim (fun eq => .inr (.inr (.inl eq))) fun eq => .inr (.inl eq)
  stop' := .inr (.inl rfl)
  colon := by obtain rfl | rfl := ends <;> simp [front]
  noValue _ Y eq := by
    obtain ⟨rfl, -⟩ := List.cons.inj eq
    simp at ends
  noValue' _ Y eq := by simp at eq

/-- Simple statements on one line and on lines of their own are read alike. -/
theorem alike_statements (some : parts ≠ []) (simple : ∀ s ∈ parts, IsSimple s) {q : List Kind}
    (depth : Nat) (room room' : List Token) (ts ts' : Tokens) (are : ts.Are (inlined parts ++ q))
    (are' : ts'.Are (parts.flatMap (· ++ [.mark .newline]) ++ .mark .dedent :: q))
    (before before' : List Stmt) (same : SameBlock before before')
    (fits : ts.ahead.length < room.length) (fits' : ts'.ahead.length < room'.length) :
    Alike SameBlock (fun rest rest' => rest.Are q ∧ rest'.Are q)
      ((inlineFrom (expressionAt depth) room before >>= fun all => endStatement >>= fun _ =>
        pure all) ts)
      (suiteFrom (statementAt depth) room' before' ts') := by
  induction parts generalizing room room' ts ts' before before' with
  | nil => exact absurd rfl some
  | cons s parts ih =>
    obtain ⟨_, room, rfl⟩ := List.exists_cons_of_length_pos (Nat.zero_lt_of_lt fits)
    obtain ⟨_, room', rfl⟩ := List.exists_cons_of_length_pos (Nat.zero_lt_of_lt fits')
    obtain ⟨first, later⟩ := List.forall_mem_cons.1 simple
    obtain ⟨k, more, front, ends⟩ := inlined_cons s parts
    rw [front, List.append_assoc] at are
    rw [List.flatMap_cons, List.append_assoc, List.append_assoc] at are'
    have parted := parted_of_ends ends (more ++ q)
      (parts.flatMap (· ++ [.mark .newline]) ++ .mark .dedent :: q)
    rw [suiteFrom_simple first are', inlineFrom_cons]
    refine (keeps_plainStatement parted (steady_expressionAt parted depth) are are').bind
      fun stmt stmt' rest rest' value left => ?_
    obtain ⟨r, suffix, left, left'⟩ := left
    have all := sameBlock_cons value same
    cases r with
    | cons c r =>
      -- the statement is not read to its end
      obtain ⟨inner, goes_on⟩ := first.inner c (suffix.subset (List.mem_cons_self ..))
      obtain ⟨e, failed⟩ := restOfLine_fails (kind_of_are left) goes_on
        (inner .semicolon (by decide)) (expressionAt depth) room (stmt :: before)
      have kind' : rest'.kind = c := kind_of_are left'
      obtain ⟨e', failed'⟩ := endStatement_fails (kind' ▸ goes_on)
        fun _ => suiteFrom (statementAt depth) room' (stmt' :: before')
      rw [failed, failed']
      exact .failed
    | nil =>
      have kind' : rest'.kind = .mark .newline := kind_of_are left'
      rw [endStatement_newline kind']
      cases parts with
      | nil =>
        rw [inlined_singleton] at front
        obtain ⟨rfl, rfl⟩ := List.cons.inj (List.append_cancel_left front)
        have last := are_tail left'
        rw [suiteFrom_dedent last, restOfLine_newline (kind_of_are left)]
        exact .read all.reverse ⟨are_tail left, are_tail last⟩
      | cons t parts =>
        rw [inlined_cons_cons] at front
        obtain ⟨rfl, rfl⟩ := List.cons.inj (List.append_cancel_left front)
        have next := are_tail left
        have next' := are_tail left'
        have goes_on : atEnd rest.tail.kind = false := by
          obtain ⟨c, r, split, goes_on, -⟩ := (later t (List.mem_cons_self ..)).exists_cons
          obtain ⟨k, more, front, -⟩ := inlined_cons t parts
          rw [front, split] at next
          rwa [show rest.tail.kind = c from kind_of_are next]
        rw [restOfLine_semicolon (kind_of_are left) goes_on]
        have shorter : rest.tail.ahead.length < room.length ∧
            rest'.tail.ahead.length < room'.length := by
          rw [length_of_are are, List.length_cons, List.length_append] at fits
          rw [length_of_are are', List.length_cons, List.length_append] at fits'
          rw [length_of_are next, length_of_are next']
          simp only [List.length_append, List.length_cons] at fits fits' ⊢
          omega
        exact ih (List.cons_ne_nil _ _) later room room' rest.tail rest'.tail next next' _ _ all
          shorter.1 shorter.2

/-- **The two forms of a block** are read alike behind their colon. -/
theorem rejoins_blocks (some : parts ≠ []) (simple : ∀ s ∈ parts, IsSimple s) (q : List Kind) :
    Rejoins (inlined parts ++ q) (indented parts ++ q) where
  parted := {
    stop := .inl rfl
    stop' := .inl rfl
    colon := Iff.rfl
    noValue := noValue_inlined some simple q
    noValue' := noValue_newline _ }
  noHeader eq depth := headerEnds_inlined some simple eq depth
  noHeader' eq depth := by
    obtain ⟨t, rest, rfl, kind, -⟩ := List.map_eq_cons_iff.1 eq
    rw [headerEnds, kind]
  block depth ts ts' are are' := by
    obtain ⟨s, parts, rfl⟩ := List.exists_cons_of_ne_nil some
    rw [indented, List.cons_append, List.cons_append, List.append_assoc] at are'
    have no_newline : ts.kind.isMark .newline = false := by
      obtain ⟨k, r, rfl, -, other⟩ := (simple s (List.mem_cons_self ..)).exists_cons
      obtain ⟨k', more, front, -⟩ := inlined_cons (k :: r) parts
      rw [front] at are
      rw [show ts.kind = k from kind_of_are are]
      exact Bool.eq_false_iff.2 (mt Kind.isMark_iff.1 (other .newline (by decide)))
    have newline : ts'.kind = .mark .newline := kind_of_are are'
    have indent : ts'.tail.kind = .mark .indent := kind_of_are (are_tail are')
    have lines := are_tail (are_tail are')
    unfold body
    rw [take_bind, take_bind, Tokens.at?, Tokens.at?, no_newline, newline, isMark_self, if_pos rfl,
      if_pos rfl, if_neg Bool.false_ne_true, if_neg Bool.false_ne_true, take_bind, Tokens.at?,
      indent, isMark_self, if_pos rfl, if_pos rfl]
    have read := alike_statements some simple depth (ts.last :: ts.ahead)
      (ts'.tail.tail.last :: ts'.tail.tail.ahead) ts ts'.tail.tail are lines [] [] rfl
      (Nat.lt_succ_self _) (Nat.lt_succ_self _)
    refine Alike.mono read fun rest rest' left => ⟨⟨q, left.1, left.2⟩, ?_⟩
    rw [length_of_are left.1, length_of_are left.2, length_of_are are, length_of_are are']
    simp only [List.length_append, List.length_cons]
    omega

/-! ## Lists of tokens -/

/-- A list with a fault in it has a first one. -/
theorem firstFault?_ne_none {tokens : List Token} (h : ¬ Expr.Faultless (tokens.map Token.kind)) :
    firstFault? tokens ≠ none := by
  refine fun none => h fun k mem f eq => ?_
  obtain ⟨t, inside, rfl⟩ := List.mem_map.1 mem
  have no_fault := List.findSome?_eq_none_iff.1 none t inside
  rw [eq] at no_fault
  cases no_fault

/-- The kinds before an end of the input. -/
def trimmed (kinds : List Kind) : List Kind :=
  if kinds.getLast? = some (.mark .endOfInput) then kinds.dropLast else kinds

theorem trimmed_append {front : List Kind} (goes_on : front.getLast? ≠ some (.mark .endOfInput))
    (after : List Kind) : trimmed (front ++ after) = front ++ trimmed after := by
  by_cases none : after = []
  · rw [none, List.append_nil, trimmed, if_neg goes_on, trimmed, if_neg (by simp), List.append_nil]
  · rw [trimmed, trimmed, List.getLast?_append_of_ne_nil _ none,
      List.dropLast_append_of_ne_nil none]
    split_ifs <;> rfl

theorem are_ofList (tokens : List Token) :
    (Tokens.ofList tokens).Are (trimmed (tokens.map Token.kind)) := by
  refine ⟨Tokens.ofList_closed tokens, ?_⟩
  unfold Tokens.ofList trimmed
  rw [List.getLast?_map]
  cases last : tokens.getLast? with
  | none =>
    rw [List.getLast?_eq_none_iff.1 last]
    rfl
  | some t =>
    dsimp only [Option.map_some]
    by_cases ended : t.kind = .mark .endOfInput
    · rw [if_pos (Kind.isMark_iff.2 ended), if_pos (congrArg some ended), List.map_dropLast]
    · rw [if_neg (mt Kind.isMark_iff.1 ended), if_neg (mt Option.some.inj ended)]

/-- Neither form of a block holds a fault. -/
theorem faultless_block (simple : ∀ s ∈ parts, IsSimple s) :
    Expr.Faultless (inlined parts) ∧ Expr.Faultless (indented parts) := by
  have part : ∀ s ∈ parts, Expr.Faultless s := fun s mem k inside =>
    ((simple s mem).balanced.kind_ne k inside).2
  have mark : ∀ m, Expr.Faultless [.mark m] := fun m => List.forall_mem_singleton.2 nofun
  refine ⟨Expr.closed_faultless.append ?_ (mark _), ?_⟩
  · clear simple
    induction parts with
    | nil => exact Expr.closed_faultless.nil
    | cons s parts ih =>
      obtain ⟨first, later⟩ := List.forall_mem_cons.1 part
      cases parts with
      | nil => simpa using first
      | cons t parts =>
        have split : [Kind.mark .semicolon].intercalate (s :: t :: parts) =
            s ++ ([.mark .semicolon] ++ [Kind.mark .semicolon].intercalate (t :: parts)) := by
          simp [List.intercalate]
        rw [split]
        exact Expr.closed_faultless.append first (Expr.closed_faultless.append (mark _) (ih later))
  · have lines : Expr.Faultless (parts.flatMap (· ++ [.mark .newline])) := by
      intro k mem
      obtain ⟨s, inside, mem⟩ := List.mem_flatMap.1 mem
      exact Expr.closed_faultless.append (part s inside) (mark _) k mem
    exact List.forall_mem_cons.2 ⟨nofun, List.forall_mem_cons.2 ⟨nofun,
      Expr.closed_faultless.append lines (mark _)⟩⟩

/-- The tokens ahead of a list in which a block stands. -/
theorem are_ofList_block {tokens : List Token} {before block after : List Kind} {m : Mark}
    (last : block.getLast? = some (.mark m)) (inner : m ≠ .endOfInput)
    (eq : tokens.map Token.kind = before ++ .mark .colon :: (block ++ after)) :
    (Tokens.ofList tokens).Are (before ++ .mark .colon :: (block ++ trimmed after)) := by
  have split : ∀ rest, before ++ Kind.mark .colon :: (block ++ rest) =
      (before ++ .mark .colon :: block) ++ rest := by simp
  have goes_on : (before ++ Kind.mark .colon :: block).getLast? ≠ some (.mark .endOfInput) := by
    rw [List.getLast?_append_of_ne_nil _ (List.cons_ne_nil _ _), List.getLast?_cons, last]
    simpa using inner
  have are := are_ofList tokens
  rw [eq, split, trimmed_append goes_on] at are
  rwa [split]

end Parser

namespace Program

open SheetScript.Parser SheetScript.Expr

/-- **Blocks on one line and on lines of their own are the same blocks**: where a list of tokens has
a colon and a line of simple statements behind it, it is accepted exactly if it is with the
statements indented on lines of their own, and the programs differ in nothing but lines. -/
theorem unlined_ofTokens? {before after : List Kind} {parts : List (List Kind)} (some : parts ≠ [])
    (simple : ∀ s ∈ parts, IsSimple s) {line lines : List Token}
    (h : line.map Token.kind = before ++ .mark .colon :: (inlined parts ++ after))
    (h' : lines.map Token.kind = before ++ .mark .colon :: (indented parts ++ after)) :
    (ofTokens? line).toOption.map unlined = (ofTokens? lines).toOption.map unlined := by
  have faultless : ∀ {block : List Kind}, Faultless block →
      (Faultless (before ++ .mark .colon :: (block ++ after)) ↔
        Faultless before ∧ Faultless after) := by
    intro block none
    simp only [Faultless, List.forall_mem_append, List.forall_mem_cons]
    have mark : ∀ word, Kind.mark .colon ≠ .fault word := fun _ eq => by cases eq
    exact ⟨fun all => ⟨all.1, all.2.2.2⟩, fun all => ⟨all.1, mark, none, all.2⟩⟩
  obtain ⟨none, none'⟩ := faultless_block simple
  have both : Faultless (line.map Token.kind) ↔ Faultless (lines.map Token.kind) := by
    rw [h, h', faultless none, faultless none']
  have newline : (inlined parts).getLast? = .some (.mark .newline) := by simp [inlined]
  have dedent : (indented parts).getLast? = .some (.mark .dedent) := by
    rw [indented, ← List.cons_append, ← List.cons_append,
      List.getLast?_append_of_ne_nil _ (by simp), List.getLast?_singleton]
  by_cases clean : Faultless (line.map Token.kind)
  · have read := walks_program (rejoins_blocks some simple (trimmed after)) _ _
      (.before before (are_ofList_block newline (by decide) h)
        (are_ofList_block dedent (by decide) h'))
    unfold ofTokens?
    rw [firstFault?_eq_none clean, firstFault?_eq_none (both.1 clean)]
    dsimp only [StateT.run]
    generalize Parser.program (Tokens.ofList line) = r,
      Parser.program (Tokens.ofList lines) = r' at read
    cases read with
    | failed => rfl
    | read value _ => exact congrArg Option.some value
  · have failed : ∀ {tokens : List Token}, ¬ Faultless (tokens.map Token.kind) →
        (ofTokens? tokens).toOption = .none := by
      intro tokens faulty
      obtain ⟨e, first⟩ := Option.ne_none_iff_exists'.1 (firstFault?_ne_none faulty)
      rw [ofTokens?, first]
      rfl
    rw [failed clean, failed (mt both.2 clean)]

/-- Tokens of these kinds, all at one place. -/
def atOnePlace (kinds : List Kind) : List Token := kinds.map (⟨·, "", 1, 1⟩)

/-- An assignment and a `return`. -/
def assignAndLeave : List (List Kind) :=
  [[.name "x", .mark .assign, .name "a"], [.mark .returnWord]]

/-- A choice with a block of two statements is accepted in both forms, `else` and all. -/
theorem unlined_ofTokens?_choose :
    assignAndLeave ≠ [] ∧ (∀ s ∈ assignAndLeave, IsSimple s) ∧
      (ofTokens? (atOnePlace ([.mark .ifWord, .name "a"] ++ .mark .colon ::
        (inlined assignAndLeave ++ [.mark .elseWord, .mark .colon, .name "x", .mark .newline]))
        )).toOption.isSome = true ∧
      (ofTokens? (atOnePlace ([.mark .ifWord, .name "a"] ++ .mark .colon ::
        (inlined assignAndLeave ++ [.mark .elseWord, .mark .colon, .name "x", .mark .newline]))
        )).toOption.map unlined =
      (ofTokens? (atOnePlace ([.mark .ifWord, .name "a"] ++ .mark .colon ::
        (indented assignAndLeave ++ [.mark .elseWord, .mark .colon, .name "x", .mark .newline]))
        )).toOption.map unlined := by
  have kinds : ∀ kinds, (atOnePlace kinds).map Token.kind = kinds := fun kinds => by
    simp [atOnePlace, Function.comp_def]
  have operand : ∀ name, Phrase.ExpressionAt 1 [⟨.name name, "", 1, 1⟩] (.variable name) :=
    fun name => .operand (.operand (.operand (.operand (.operand (.base (.primary (.name rfl)))))))
  have simple : ∀ s ∈ assignAndLeave, IsSimple s := by
    refine List.forall_mem_cons.2 ⟨?_, List.forall_mem_singleton.2 ?_⟩
    · exact ⟨1, [⟨.name "x", "", 1, 1⟩] ++ ⟨.mark .assign, "", 1, 1⟩ :: [⟨.name "a", "", 1, 1⟩],
        _, rfl, .assign 1 (operand "x") rfl rfl (operand "a")⟩
    · exact ⟨1, [⟨.mark .returnWord, "", 1, 1⟩], _, rfl, .leave 1 rfl⟩
  refine ⟨List.cons_ne_nil _ _, simple, by decide, ?_⟩
  exact unlined_ofTokens? (List.cons_ne_nil _ _) simple (kinds _) (kinds _)

end Program

end SheetScript
