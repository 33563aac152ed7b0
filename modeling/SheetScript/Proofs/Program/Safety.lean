import SheetScript.Proofs.Program.Following

/-!
# The parser keeps within its guards

On every list of tokens the guarded parser ends with a program or a problem, the same as the parser
without guards, and no guard fails.

* The parts of a statement are compared as those of an expression are, given the routines they call.
  `run_headerFrom` is about the count of open parentheses: it is one or more wherever one is closed.
* `ServesFrom` also bounds the calls that are active at one time. A level of expressions has eleven
  calls, each of a different routine, before the next level begins (`servesFrom_expression`), and a
  level of statements has fewer (`servesFrom_statementAt`).
* The rounds of a block or a program need not take a token of their own. There it counts that every
  statement takes one (`Parser.TakesSome`).
* `parse_safe` is the result.
-/

namespace SheetScript

open Token

namespace Guarded

variable {α β : Type}

section Statements

variable {start : Tokens} {n : Nat} {go : {α : Type} → Routine α → Guarded α}
  {expression : Parser Expr} {block : Parser (List Stmt)}

/-! ## Simple statements -/

theorem turns_separators :
    Turns start n separatorRound fun room _ => Parser.skipSeparatorsFrom room := by
  intro t room next i _ later
  rw [separatorRound, bind_assoc]
  refine follows_kind ?_
  cases kind : (start.drop i).kind with
  | mark m =>
    cases m
    case newline | semicolon =>
      exact follows_advance (by simp [kind]) (later (i + 1) () (Nat.lt_succ_self i))
    all_goals exact follows_pure trivial
  | _ => exact follows_pure trivial

theorem serves_separators : Serves start n skipSeparators Parser.skipSeparators :=
  fun i => turns_separators.loop i ()

theorem follows_atStatementEnd {i : Nat} {f : Bool → Guarded β} {q : Bool → Parser β}
    {post : β → Nat → Prop} (h : ∀ ended, Follows start n i (f ended) (q ended) post) :
    Follows start n i (atStatementEnd >>= f) (Parser.atStatementEnd >>= q) post := by
  have same : (atStatementEnd : Guarded Bool) =
      kind >>= fun kind => pure (Parser.atEnd kind) := by
    refine bind_congr fun kind => ?_
    cases kind with
    | mark m => cases m <;> rfl
    | _ => rfl
  have same' : (Parser.atStatementEnd >>= q) (start.drop i) =
      (Parser.peek >>= fun kind => q (Parser.atEnd kind)) (start.drop i) :=
    Parser.atStatementEnd_bind q _
  rw [same, bind_assoc]
  exact Follows.of_eq (follows_kind (by rw [pure_bind]; exact h _)) same'

theorem serves_endStatement : Serves start n endStatement Parser.endStatement := by
  intro i
  refine follows_kind ?_
  have step : (start.drop i).kind ≠ .mark .endOfInput →
      Follows start n i advance Parser.skip anything := fun some =>
    follows_advance (f := pure) (q := pure) some (follows_pure trivial)
  cases kind : (start.drop i).kind with
  | mark m =>
    cases m
    case newline | semicolon => exact step (by simp [kind])
    case endOfInput | dedent => exact follows_pure trivial
    all_goals exact follows_fail _
  | _ => exact follows_fail _

theorem serves_simpleStatement (each : Serves start n (go .expression) expression) :
    Serves start n (simpleStatement go) (Parser.simpleStatement expression) := by
  refine fun i => follows_line fun line => (each i).bind fun e j _ _ => follows_kind ?_
  cases assigns : Parser.assignment? (start.drop j).kind with
  | none => exact follows_pure trivial
  | some op =>
    cases Parser.target? e with
    | none => exact follows_fail _
    | some target =>
      have some : (start.drop j).kind ≠ .mark .endOfInput := by
        intro last
        rw [last] at assigns
        cases assigns
      exact follows_advance some ((each _).bind fun value _ _ _ => follows_pure trivial)

theorem follows_returnStatement (each : Serves start n (go .expression) expression) {i : Nat}
    (kind : (start.drop i).kind = .mark .returnWord) :
    Follows start n i (returnStatement go) (Parser.leaveStatement expression) anything := by
  refine follows_line fun line => follows_consume_seen (by decide) kind ?_
  refine follows_atStatementEnd fun ended => ?_
  cases ended with
  | true => exact follows_pure trivial
  | false => exact (each _).bind fun value _ _ _ => follows_pure trivial

/-! ## Headers of functions -/

theorem headerFrom_open {t : Token} (opens : t.kind = .mark .leftParen) (i depth : Nat)
    (rest : List Token) :
    headerFrom i depth (t :: rest) = headerFrom (i + 1) (depth + 1) rest := by
  conv_lhs => unfold headerFrom
  rw [opens]

/-- With one or more parentheses open, the search for a header ends as it does in the parser. -/
theorem run_headerFrom (closed : start.Closed) (rest : List Token) (i depth : Nat)
    (here : start.all.drop i = rest ++ [start.last]) (c : Cursor) :
    headerFrom i (depth + 1) (rest ++ [start.last]) start.all c =
      .ok (Parser.headerEnds (depth + 1) rest, c) := by
  induction rest generalizing i depth with
  | nil =>
    rw [List.nil_append]
    unfold headerFrom
    rw [show start.last.kind = _ from closed]
    rfl
  | cons t rest ih =>
    have next : start.all.drop (i + 1) = rest ++ [start.last] := by
      rw [← List.drop_drop, here]
      rfl
    rw [List.cons_append]
    unfold headerFrom Parser.headerEnds
    cases t.kind with
    | mark m =>
      cases m
      case leftParen => exact ih (i + 1) (depth + 1) next
      case rightParen =>
        cases depth with
        | zero =>
          -- the last one that was open: a colon behind it is one of the tokens ahead
          have behind : (start.all[i + 1]?.map Token.kind).any (·.isMark .colon) =
              rest.head?.any (·.kind.isMark .colon) := by
            rw [← List.head?_drop, next]
            cases rest with
            | nil => simp [show start.last.kind = _ from closed, Kind.isMark]
            | cons t rest => rfl
          show Except.ok ((start.all[i + 1]?.map Token.kind).any (·.isMark .colon), c) = _
          rw [behind]
          rfl
        | succ depth =>
          exact ih (i + 1) depth next
      case newline | endOfInput => rfl
      all_goals exact ih (i + 1) depth next
    | _ => exact ih (i + 1) depth next

/-- The token at the front and those behind it, if the input does not end here. -/
theorem exists_front {i : Nat} (closed : start.Closed) (inside : i ≤ start.ahead.length)
    (some : (start.drop i).kind ≠ .mark .endOfInput) :
    ∃ t rest, (start.drop i).ahead = t :: rest ∧ t.kind = (start.drop i).kind ∧
      start.all.drop (i + 1) = rest ++ [start.last] := by
  have all : start.all.drop i = (start.drop i).ahead ++ [start.last] := by
    rw [Tokens.all, Tokens.drop, List.drop_append_of_le_length inside]
  cases split : (start.drop i).ahead with
  | nil =>
    have none : start.ahead.length ≤ i := List.drop_eq_nil_iff.1 split
    exact absurd (lt_of_kind_ne closed inside some) (Nat.not_lt.2 none)
  | cons t rest =>
    refine ⟨t, rest, rfl, ?_, ?_⟩
    · rw [Tokens.kind, Tokens.current, split]
      rfl
    · rw [← List.drop_drop, all, split]
      rfl

/-- At a name the parsers look for the header of a function. The count of parentheses does not go
below zero, and no token behind the end of the list is asked for. -/
theorem run_atFunctionHeader {i : Nat} {name : String} (closed : start.Closed)
    (inside : i ≤ start.ahead.length) (kind : (start.drop i).kind = .name name) :
    atFunctionHeader start.all ⟨i, n⟩ = .ok (Parser.header (start.drop i).ahead, ⟨i, n⟩) := by
  have some : (start.drop i).kind ≠ .mark .endOfInput := by simp [kind]
  have before := lt_of_kind_ne closed inside some
  have run : atFunctionHeader start.all ⟨i, n⟩ =
      if (start.all[i + 1]?.map Token.kind).any (·.isMark .leftParen) then
        (tokensFrom (i + 1) start.all ⟨i, n⟩ >>= fun r => headerFrom (i + 1) 0 r.1 start.all r.2)
      else .ok (false, ⟨i, n⟩) := by
    show (ite _ _ _ : Guarded Bool) start.all ⟨i, n⟩ = _
    split_ifs <;> rfl
  have length : i + 1 ≤ start.all.length := by
    rw [Tokens.length_all]
    omega
  obtain ⟨t, rest, split, front, behind⟩ := exists_front closed inside some
  rw [run, tokensFrom, if_pos length, ← List.head?_drop, behind, split,
    Parser.header_eq (front.trans kind)]
  cases rest with
  | nil => simp [show start.last.kind = _ from closed, Kind.isMark]
  | cons next rest =>
    have further : start.all.drop (i + 1 + 1) = rest ++ [start.last] := by
      rw [← List.drop_drop, behind]
      rfl
    show (if next.kind.isMark .leftParen then
      headerFrom (i + 1) 0 (next :: rest ++ [start.last]) start.all ⟨i, n⟩ else _) = Except.ok
        (next.kind.isMark .leftParen && Parser.headerEnds 1 rest, _)
    cases opens : next.kind.isMark .leftParen with
    | true =>
      rw [if_pos rfl, List.cons_append, headerFrom_open (Kind.isMark_iff.1 opens),
        run_headerFrom closed rest _ 0 further, Bool.true_and]
    | false => rfl

theorem follows_atFunctionHeader {i : Nat} {name : String} {f : Bool → Guarded β}
    {q : Bool → Parser β} {post : β → Nat → Prop} (kind : (start.drop i).kind = .name name)
    (h : Follows start n i (f (Parser.header (start.drop i).ahead))
      (q (Parser.header (start.drop i).ahead)) post) :
    Follows start n i (atFunctionHeader >>= f) (Parser.atFunction >>= q) post :=
  follows_step (fun closed inside =>
    ⟨Nat.le_refl i, inside, run_atFunctionHeader closed inside kind, rfl⟩) h

/-! ## Statements -/

theorem turns_parameters : Turns start n parameterRound Parser.parametersFrom := by
  intro t room next i before later
  rw [parameterRound, bind_assoc]
  refine follows_identifier fun param => ?_
  split_ifs
  · exact follows_fail_bind _
  · rw [bind_assoc]
    refine follows_take (by decide) (fun _ => ?_) (follows_pure trivial)
    rw [if_pos rfl, bind_assoc]
    refine follows_check ?_
    split_ifs
    · exact follows_pure trivial
    · exact later _ _ (by omega)

/-- Behind the name of a function stand its parameters. -/
theorem kind_behind_header {i : Nat} (found : Parser.header (start.drop i).ahead = true) :
    (start.drop (i + 1)).kind = .mark .leftParen := by
  cases split : (start.drop i).ahead with
  | nil =>
    rw [split] at found
    cases found
  | cons t rest =>
    have behind : (start.drop (i + 1)).ahead = rest := by
      rw [← Tokens.tail_drop, Tokens.tail, split]
      rfl
    rw [split, ← behind] at found
    exact Parser.kind_of_header found

/-- The parameters between the parentheses of a header. -/
def parameterList : Parser (List String) := do
  if ← Parser.sees .rightParen then return []
  else Parser.parametersFrom (← Parser.room) []

theorem serves_parameters : Serves start n parameters parameterList := by
  refine fun i => follows_check ?_
  split_ifs
  · exact follows_pure trivial
  · exact turns_parameters.loop i []

theorem follows_functionDeclaration (blocks : Serves start n (go .block) block) {i : Nat}
    (found : Parser.header (start.drop i).ahead = true) :
    Follows start n i (functionDeclaration go) (Parser.functionStatement block) anything := by
  have parts : Parser.parameters = (do
      Parser.skip
      let params ← parameterList
      Parser.expect .rightParen .unclosedParameters
      return params) := by
    rw [Parser.parameters, parameterList]
    simp only [bind_assoc]
    refine bind_congr fun _ => bind_congr fun seen => ?_
    cases seen <;> rfl
  refine follows_line fun line => follows_identifier fun name => ?_
  rw [parts]
  simp only [bind_assoc, pure_bind]
  refine follows_consume_seen (by decide) (kind_behind_header found) ?_
  refine (serves_parameters _).bind fun params j _ _ => follows_consume (by decide) ?_
  exact (blocks _).bind fun body k _ _ => follows_pure trivial

theorem turns_branches (each : Serves start n (go .expression) expression)
    (blocks : Serves start n (go .block) block) :
    Turns start n (branchRound go) (Parser.branchesFrom expression block) := by
  intro t room next i before later
  rw [branchRound, bind_assoc]
  refine follows_take (by decide) (fun _ => ?_) (follows_pure trivial)
  rw [if_pos rfl, bind_assoc]
  refine follows_take (by decide) (fun _ => ?_) ?_
  · simp only [if_true, bind_assoc]
    refine (each _).bind fun condition j after _ => (blocks j).bind fun body k further _ => ?_
    exact later k _ (by omega)
  · simp only [Bool.false_eq_true, if_false, bind_assoc]
    exact (blocks _).bind fun body j _ _ => follows_pure trivial

theorem follows_ifStatement (each : Serves start n (go .expression) expression)
    (blocks : Serves start n (go .block) block) {i : Nat}
    (kind : (start.drop i).kind = .mark .ifWord) :
    Follows start n i (ifStatement go) (Parser.chooseStatement expression block) anything := by
  refine follows_line fun line => follows_consume_seen (by decide) kind ?_
  refine (each _).bind fun condition j _ _ => (blocks j).bind fun body k _ _ => ?_
  exact (turns_branches each blocks).loop_bind fun r _ _ => follows_pure trivial

theorem follows_forStatement (each : Serves start n (go .expression) expression)
    (blocks : Serves start n (go .block) block) {i : Nat}
    (kind : (start.drop i).kind = .mark .forWord) :
    Follows start n i (forStatement go) (Parser.loopStatement expression block) anything := by
  refine follows_line fun line => follows_consume_seen (by decide) kind ?_
  refine follows_identifier fun name => follows_consume (by decide) ?_
  refine (each _).bind fun subject j _ _ => (blocks j).bind fun body k _ _ => follows_pure trivial

/-- Only at a name there may be the header of a function. -/
theorem header_of_kind {i : Nat} (other : ∀ name, (start.drop i).kind ≠ .name name) :
    Parser.header (start.drop i).ahead = false := by
  cases split : (start.drop i).ahead with
  | nil => rfl
  | cons t rest =>
    refine Parser.header_of_not_name (fun name eq => other name ?_) rest
    rw [← eq, Tokens.kind, Tokens.current, split]
    rfl

end Statements

/-! ## Calls -/

section Calls

variable {start : Tokens} {n less : Nat} {inner deeper operand expression : Parser Expr}
  {block : Parser (List Stmt)}

/-- With so many calls, or more, a routine does what the parser does, and no guard fails. -/
def ServesFrom (calls : Nat) (start : Tokens) (n : Nat) (r : Routine α) (p : Parser α) : Prop :=
  ∀ more, calls ≤ more → Serves start n (call more r) p

theorem servesFrom_succ {calls : Nat} {r : Routine α} {p : Parser α}
    (h : ∀ more, calls ≤ more → Serves start n (body (call more) r) p) :
    ServesFrom (calls + 1) start n r p := by
  intro more enough
  cases more with
  | zero => exact absurd enough (Nat.not_succ_le_zero calls)
  | succ more => exact h more (Nat.le_of_succ_le_succ enough)

/-! ### Expressions -/

/-- From the expressions inside brackets to an operand with its sign there are five calls: lists,
operands, suffixes, powers and signs. -/
theorem servesFrom_unary {calls : Nat} (each : ServesFrom calls start n .expression inner)
    (next : ∀ more, calls ≤ more → Serves start n (nested (call more .unary)) deeper) :
    ServesFrom (calls + 5) start n .unary (Parser.signedWith inner deeper) := by
  have lists : ∀ close,
      ServesFrom (calls + 1) start n (.expressionList close) (Parser.items inner close) :=
    fun close => servesFrom_succ fun more enough => serves_expressionList (each more enough) close
  have primary : ServesFrom (calls + 2) start n .primary (Parser.primary inner) :=
    servesFrom_succ fun more enough =>
      serves_primary (each more (by omega)) fun close => lists close more enough
  have suffixes : ServesFrom (calls + 3) start n .call (Parser.suffixed inner) :=
    servesFrom_succ fun more enough =>
      serves_suffixed (primary more enough) (each more (by omega)) fun close =>
        lists close more (by omega)
  have power : ServesFrom (calls + 4) start n .power (raised inner deeper) :=
    servesFrom_succ fun more enough => serves_power (suffixes more enough) (next more (by omega))
  exact servesFrom_succ fun more enough => serves_unary (power more enough) (next more (by omega))

/-- From an operand with its sign to an expression there are five calls, one for each family of
operators. -/
theorem servesFrom_or {calls : Nat} (each : ServesFrom calls start n .unary operand) :
    ServesFrom (calls + 5) start n .or (Parser.disjunction operand) := by
  have factor : ServesFrom (calls + 1) start n .factor _ :=
    servesFrom_succ fun more enough => serves_chained rfl (each more enough)
  have term : ServesFrom (calls + 2) start n .term _ :=
    servesFrom_succ fun more enough => serves_chained rfl (factor more enough)
  have comparison : ServesFrom (calls + 3) start n .comparison _ :=
    servesFrom_succ fun more enough => serves_chained rfl (term more enough)
  have conjunction : ServesFrom (calls + 4) start n .and _ :=
    servesFrom_succ fun more enough => serves_chained rfl (comparison more enough)
  exact servesFrom_succ fun more enough => serves_chained rfl (conjunction more enough)

/-- Each level of nesting of an expression is eleven calls. The induction is on the levels that are
left, and every cycle of the calls goes through `nested`, which takes one. -/
theorem servesFrom_expression (depth : Nat) (whole : n + depth = Parser.nestingLimit) :
    ServesFrom (11 * depth + 1) start n .expression (Parser.expressionAt depth) ∧
      ServesFrom (11 * depth + 6) start n .unary (Parser.signedAt depth) := by
  induction depth generalizing n with
  | zero =>
    have each : ServesFrom 1 start n .expression (Parser.expressionAt 0) :=
      servesFrom_succ fun _ _ => serves_nested_limit whole
    exact ⟨each, servesFrom_unary each fun _ _ => serves_nested_limit whole⟩
  | succ depth ih =>
    obtain ⟨-, signed⟩ := ih (n := n + 1) (by omega)
    have each : ServesFrom (11 * (depth + 1) + 1) start n .expression
        (Parser.expressionAt (depth + 1)) :=
      servesFrom_succ fun more enough =>
        serves_nested (by omega) (servesFrom_or signed more (by omega))
    refine ⟨each, servesFrom_unary each fun more enough => ?_⟩
    exact serves_nested (by omega) (signed more (by omega))

/-! ### Statements and blocks -/

/-- A statement without a block, by what stands at its front. -/
theorem follows_plain (each : Serves start n (call less .expression) expression) (i : Nat) :
    Follows start n i
      (if (start.drop i).kind.isMark .returnWord then call (less + 1) .returnStatement
        else call (less + 1) .simpleStatement)
      (if (start.drop i).kind.isMark .returnWord then Parser.leaveStatement expression
        else Parser.simpleStatement expression) anything := by
  split_ifs with seen
  · exact follows_returnStatement each (Kind.isMark_iff.1 seen)
  · exact serves_simpleStatement each i

theorem serves_plainStatement (each : Serves start n (call less .expression) expression) :
    Serves start n (plainStatement (call (less + 1))) (Parser.plainStatement expression) :=
  fun i => follows_check (follows_plain each i)

theorem serves_statement (each : Serves start n (call less .expression) expression)
    (blocks : Serves start n (call less .block) block) :
    Serves start n (statement (call (less + 1))) (Parser.statementWith expression block) := by
  intro i
  have ended : ∀ {g : Guarded Stmt} {p : Parser Stmt}, Follows start n i g p anything →
      Follows start n i (g >>= fun stmt => endStatement >>= fun _ => pure stmt)
        (p >>= fun stmt => Parser.endStatement >>= fun _ => pure stmt) anything := by
    intro g p h
    exact h.bind fun stmt j _ _ => (serves_endStatement j).bind fun _ _ _ _ => follows_pure trivial
  have plain := (follows_plain each i).of_eq (p := Parser.plainStatement expression) rfl
  -- only at a name does the guarded parser look for a header
  have unheaded : (∀ name, (start.drop i).kind ≠ .name name) →
      (Parser.atFunction >>= fun found => if found then Parser.functionStatement block
        else Parser.plainStatement expression >>= fun stmt =>
          Parser.endStatement >>= fun _ => pure stmt) (start.drop i) =
        (Parser.plainStatement expression >>= fun stmt =>
          Parser.endStatement >>= fun _ => pure stmt) (start.drop i) := by
    intro other
    have look : ∀ q : Bool → Parser Stmt, (Parser.atFunction >>= q) (start.drop i) =
      q (Parser.header (start.drop i).ahead) (start.drop i) := fun _ => rfl
    rw [look, header_of_kind other]
    rfl
  refine follows_kind ?_
  cases kind : (start.drop i).kind with
  | name s =>
    refine follows_atFunctionHeader kind ?_
    split_ifs with found
    · exact follows_functionDeclaration blocks found
    · rw [kind] at plain
      exact ended plain
  | mark m =>
    have none := unheaded (by simp [kind])
    rw [kind] at plain
    cases m
    case ifWord => exact follows_ifStatement each blocks kind
    case forWord => exact follows_forStatement each blocks kind
    all_goals exact (ended plain).of_eq none
  | _ =>
    have none := unheaded (by simp [kind])
    rw [kind] at plain
    exact (ended plain).of_eq none

theorem turns_suite {statement : Parser Stmt} (progress : Parser.TakesSome statement)
    {go : {α : Type} → Routine α → Guarded α} (stmts : Serves start n (go .statement) statement) :
    Turns start n (suiteRound go) (Parser.suiteFrom statement) := by
  intro t room next i before later
  rw [suiteRound, bind_assoc]
  unfold Parser.suiteFrom
  refine (serves_separators i).bind fun _ j after _ => ?_
  rw [bind_assoc]
  refine follows_take (by decide) (fun _ => follows_pure trivial) ?_
  simp only [Bool.false_eq_true, if_false, bind_assoc]
  refine follows_check ?_
  split_ifs
  · exact follows_fail_bind _
  · rw [bind_assoc]
    refine ((stmts j).progress progress).bind fun stmt k _ further => ?_
    exact later k _ (by omega)

theorem turns_inline {go : {α : Type} → Routine α → Guarded α}
    (plain : Serves start n (plainStatement go) (Parser.plainStatement expression)) :
    Turns start n (inlineRound go) (Parser.inlineFrom expression) := by
  intro t room next i before later
  rw [inlineRound, bind_assoc]
  unfold Parser.inlineFrom
  refine (plain i).bind fun stmt j after _ => ?_
  rw [bind_assoc]
  refine follows_take (by decide) (fun _ => ?_) (follows_pure trivial)
  rw [if_pos rfl, bind_assoc]
  refine follows_atStatementEnd fun ended => ?_
  cases ended with
  | true => exact follows_pure trivial
  | false => exact later (j + 1) _ (by omega)

theorem serves_suite {statement : Parser Stmt} (progress : Parser.TakesSome statement)
    (each : Serves start n (call less .expression) expression)
    (stmts : Serves start n (call (less + 1) .statement) statement) :
    Serves start n (suite (call (less + 1))) (Parser.suite expression statement) := by
  refine fun i => follows_consume (by decide) ?_
  refine follows_take (by decide) (fun _ => ?_) ?_
  · refine follows_take (by decide) (fun _ => ?_) (follows_fail _)
    exact (turns_suite progress stmts).loop _ []
  · refine (turns_inline (serves_plainStatement each)).loop_bind fun stmts j _ => ?_
    exact (serves_endStatement j).bind fun _ _ _ _ => follows_pure trivial

theorem servesFrom_statementWith {calls : Nat}
    (each : ServesFrom calls start n .expression expression)
    (blocks : ServesFrom calls start n .block block) :
    ServesFrom (calls + 2) start n .statement (Parser.statementWith expression block) := by
  refine servesFrom_succ fun more enough => ?_
  obtain ⟨less, rfl⟩ : ∃ less, more = less + 1 := ⟨more - 1, by omega⟩
  exact serves_statement (each less (by omega)) (blocks less (by omega))

theorem servesFrom_suite {calls : Nat} {statement : Parser Stmt}
    (progress : Parser.TakesSome statement) (each : ServesFrom calls start n .expression expression)
    (stmts : ServesFrom (calls + 2) start n .statement statement) :
    ServesFrom (calls + 3) start n .suite (Parser.suite expression statement) := by
  refine servesFrom_succ fun more enough => ?_
  obtain ⟨less, rfl⟩ : ∃ less, more = less + 1 := ⟨more - 1, by omega⟩
  exact serves_suite progress (each less (by omega)) (stmts (less + 1) enough)

/-- A level of statements takes fewer calls than one of expressions. -/
theorem servesFrom_statementAt (depth : Nat) (whole : n + depth = Parser.nestingLimit) :
    ServesFrom (11 * depth + 3) start n .statement (Parser.statementAt depth) := by
  induction depth generalizing n with
  | zero =>
    exact servesFrom_statementWith (servesFrom_expression 0 whole).1
      (servesFrom_succ fun _ _ => serves_nested_limit whole)
  | succ depth ih =>
    have progress : Parser.TakesSome (Parser.statementAt depth) :=
      Parser.Takes.takesSome (Parser.takes_statementAt depth) (Phrase.StatementAt.ne_nil depth)
    have deeper : n + 1 + depth = Parser.nestingLimit := by omega
    have suites := servesFrom_suite progress (servesFrom_expression depth deeper).1 (ih deeper)
    have blocks : ServesFrom (11 * (depth + 1) + 1) start n .block
        (Parser.suite (Parser.expressionAt depth) (Parser.statementAt depth)) :=
      servesFrom_succ fun more enough => serves_nested (by omega) (suites more (by omega))
    exact servesFrom_statementWith (servesFrom_expression (depth + 1) whole).1 blocks

end Calls

/-! ## Programs -/

section Programs

variable {start : Tokens} {n : Nat} {go : {α : Type} → Routine α → Guarded α}
  {statement : Parser Stmt}

theorem turns_statements (progress : Parser.TakesSome statement)
    (stmts : Serves start n (go .statement) statement) :
    Turns start n (programRound go) (Parser.statementsFrom statement) := by
  intro t room next i before later
  rw [programRound, bind_assoc]
  unfold Parser.statementsFrom
  refine (serves_separators i).bind fun _ j after _ => ?_
  rw [bind_assoc]
  refine follows_check ?_
  split_ifs
  · exact follows_pure trivial
  rw [bind_assoc]
  refine follows_check ?_
  split_ifs
  · exact follows_fail_bind _
  · rw [bind_assoc]
    refine ((stmts j).progress progress).bind fun stmt k _ further => ?_
    exact later k _ (by omega)

/-- Twelve calls for each level of nesting are enough. -/
theorem serves_program :
    Serves start 0 (program (call (12 * Parser.nestingLimit))) Parser.program := by
  have progress : Parser.TakesSome (Parser.statementAt Parser.nestingLimit) :=
    Parser.Takes.takesSome (Parser.takes_statementAt _) (Phrase.StatementAt.ne_nil _)
  have stmts : ServesFrom (11 * Parser.nestingLimit + 3) start 0 .statement
      (Parser.statementAt Parser.nestingLimit) := servesFrom_statementAt _ (Nat.zero_add _)
  exact fun i => (turns_statements progress (stmts _ (by decide))).loop_bind fun _ _ _ =>
    follows_pure trivial

end Programs

/-! ## Lists of tokens -/

theorem all_ofList (tokens : List Token) : (Tokens.ofList tokens).all = closed tokens := by
  unfold Tokens.ofList closed Tokens.all
  cases last : tokens.getLast? with
  | none => rfl
  | some t =>
    dsimp only
    split_ifs
    · exact List.dropLast_append_getLast? t last
    · rfl

/-- The closing token is no fault. -/
theorem firstFault?_closed (tokens : List Token) :
    firstFault? (closed tokens) = firstFault? tokens := by
  have closing : firstFault? [Tokens.closing tokens] = none := by
    unfold Tokens.closing
    split <;> rfl
  unfold closed
  cases last : tokens.getLast? with
  | none =>
    rw [List.getLast?_eq_none_iff.1 last]
    rfl
  | some t =>
    dsimp only
    split_ifs
    · rfl
    · rw [firstFault?, List.findSome?_append]
      show (firstFault? tokens).or (firstFault? [Tokens.closing tokens]) = firstFault? tokens
      rw [closing, Option.or_none]

/-- A fault is a problem at the place where it stands. -/
theorem exists_of_firstFault? {tokens : List Token} {e : ScriptError}
    (h : firstFault? tokens = some e) : ∃ problem line column, e = .parse problem line column := by
  obtain ⟨t, -, faulty⟩ := List.exists_of_findSome?_eq_some h
  split at faulty
  · exact ⟨_, _, _, (Option.some.inj faulty).symm⟩
  · cases faulty

/-- The tokens that have been taken are those before the index. -/
theorem take_of_split {start : Tokens} {taken : List Token} {i : Nat}
    (inside : i ≤ start.ahead.length) (split : start = .behind taken (start.drop i)) :
    taken.length = i ∧ taken = start.all.take i := by
  have ahead : start.ahead = taken ++ start.ahead.drop i := congrArg Tokens.ahead split
  have length : taken.length = i := by
    have lengths := congrArg List.length ahead
    rw [List.length_append, List.length_drop] at lengths
    omega
  refine ⟨length, ?_⟩
  rw [Tokens.all, ahead, List.append_assoc, List.take_left' length]

/-- How the guarded parser may end on a list of tokens: it rejects it with a problem, as the parser
without guards does, or it reads the program that the other one reads. Then it has stopped at the
first `endOfInput`, no level of nesting is left open, and the tokens before, all of them, stand for
the statements. -/
inductive Safe (tokens : List Token) : Except Stop (Program × Cursor) → Prop
  | rejected {problem : ParseProblem} {line column : Nat}
      (same : Program.ofTokens? tokens = .error (.parse problem line column)) :
      Safe tokens (.error (.rejected (.parse problem line column)))
  | read {p : Program} {i : Nat} (same : Program.ofTokens? tokens = .ok p)
      (ended : (closed tokens)[i]?.map Token.kind = some (.mark .endOfInput))
      (inner : ∀ t ∈ (closed tokens).take i, t.kind ≠ .mark .endOfInput)
      (stands : Phrase.Statements (Phrase.StatementAt Parser.nestingLimit)
        ((closed tokens).take i) p.statements) :
      Safe tokens (.ok (p, ⟨i, 0⟩))

/-- On every list of tokens, also on those that no text has, the guarded parser ends and no guard
fails: twelve active calls for each level of nesting are enough. -/
theorem parse_safe (tokens : List Token) :
    Safe tokens (parse (12 * Parser.nestingLimit) tokens) := by
  unfold parse
  rw [firstFault?_closed]
  cases faulty : firstFault? tokens with
  | some e =>
    obtain ⟨problem, line, column, rfl⟩ := exists_of_firstFault? faulty
    refine .rejected ?_
    rw [Program.ofTokens?, faulty]
  | none =>
    have closing := Tokens.ofList_closed tokens
    have agree : Agree (Tokens.ofList tokens) 0 0 anything _ _ :=
      serves_program 0 closing (Nat.zero_le _)
    have takes := Parser.takes_program (Tokens.ofList tokens) closing
    have run : Program.ofTokens? tokens =
        (Parser.program (Tokens.ofList tokens)).map Prod.fst := by
      rw [Program.ofTokens?, faulty]
      rfl
    rw [all_ofList, show (Tokens.ofList tokens).drop 0 = Tokens.ofList tokens from rfl] at agree
    show Safe tokens (program (call (12 * Parser.nestingLimit)) (closed tokens) ⟨0, 0⟩)
    generalize program (call (12 * Parser.nestingLimit)) (closed tokens) ⟨0, 0⟩ = x,
      Parser.program (Tokens.ofList tokens) = y at agree takes run
    cases agree with
    | rejected problem line column => exact .rejected run
    | @read p i _ inside _ =>
      obtain ⟨taken, split, inner, stands, ended⟩ := takes rfl
      obtain ⟨length, eq⟩ := take_of_split inside split
      rw [all_ofList] at eq
      refine .read run ?_ (eq ▸ inner) (eq ▸ stands)
      rw [← all_ofList, Tokens.getElem?_all inside, ← length]
      exact congrArg some ended

end Guarded

end SheetScript
