import Mathlib.Data.List.Basic
import SheetScript.Proofs.Program.Grammar
import SheetScript.Proofs.Program.RoundTrip
import SheetScript.Proofs.Token.Extent

/-!
# What the parser accepts is of the grammar

`Parser.Takes start p phrase` says of a parser that whenever it succeeds on the tokens `start`, it
has taken tokens from the front, none of them the end of the input, and that they stand for its
result. There is one rule for each thing that a parser does, and one lemma for each parser.

* `takes_signedAt`, `takes_expressionAt` and `takes_statementAt` go by recursion on the levels left,
  those about lists and chains by recursion on the room.
* `Program.statements_of_ofTokens?`: the tokens of a program before the end of the input stand for
  its statements.
-/

namespace SheetScript

open Token

/-- The last token ends the input. -/
def Tokens.Closed (ts : Tokens) : Prop := ts.last.kind = .mark .endOfInput

/-- The tokens behind the first so many. -/
def Tokens.drop (ts : Tokens) (count : Nat) : Tokens := { ts with ahead := ts.ahead.drop count }

theorem Tokens.drop_behind (taken more : List Token) (rest : Tokens) :
    (Tokens.behind taken rest).drop (taken ++ more).length = rest.drop more.length := by
  simp [Tokens.behind, Tokens.drop, List.drop_append]

namespace Parser

/-- Whenever the parser succeeds on these tokens, it has taken some of them from the front, none of
them the end of the input, and they stand for the result. -/
def Takes {α : Type} (start : Tokens) (p : Parser α) (phrase : Phrase α) : Prop :=
  start.Closed → ∀ ⦃a rest⦄, p start = .ok (a, rest) →
    ∃ taken, start = .behind taken rest ∧ (∀ t ∈ taken, t.kind ≠ .mark .endOfInput) ∧ phrase taken a

section Rules

variable {α β : Type} {start : Tokens} {p : Parser α} {phrase phrase' : Phrase α}

/-! ## Rules -/

theorem takes_pure {a : α} (h : phrase [] a) : Takes start (pure a) phrase := by
  intro _ b rest eq
  obtain ⟨rfl, rfl⟩ := Prod.mk.inj (Except.ok.inj eq)
  exact ⟨[], rfl, fun _ mem => absurd mem List.not_mem_nil, h⟩

theorem takes_fail (c : Complaint) : Takes start (fail c) phrase := fun _ _ _ eq => nomatch eq

theorem Takes.mono (h : Takes start p phrase) (weaker : ∀ ts a, phrase ts a → phrase' ts a) :
    Takes start p phrase' := by
  intro closed a rest eq
  obtain ⟨taken, split, inner, stands⟩ := h closed eq
  exact ⟨taken, split, inner, weaker taken a stands⟩

variable {f : α → Parser β} {result : Phrase β}

/-- One thing after another: the second takes what the first has left. -/
theorem Takes.bind (h : Takes start p phrase)
    (h' : ∀ ⦃taken rest a⦄, start = .behind taken rest → phrase taken a →
      Takes rest (f a) fun more b => result (taken ++ more) b) :
    Takes start (p >>= f) result := by
  intro closed b rest eq
  have run : (p >>= f) start = (p start >>= fun r => f r.1 r.2) := rfl
  rw [run] at eq
  cases first : p start with
  | error e =>
    rw [first] at eq
    nomatch eq
  | ok r =>
    obtain ⟨a, between⟩ := r
    rw [first] at eq
    obtain ⟨taken, rfl, inner, stands⟩ := h closed first
    obtain ⟨more, rfl, inner', stands'⟩ := h' rfl stands closed eq
    refine ⟨taken ++ more, ?_, List.forall_mem_append.2 ⟨inner, inner'⟩, stands'⟩
    simp only [Tokens.behind, List.append_assoc]

theorem takes_peek {f : Kind → Parser β} (h : Takes start (f start.kind) result) :
    Takes start (peek >>= f) result := h

theorem takes_sees {m : Mark} {f : Bool → Parser β}
    (h : Takes start (f (start.kind.isMark m)) result) : Takes start (sees m >>= f) result := h

theorem takes_line {f : Nat → Parser β} (h : ∀ n, Takes start (f n) result) :
    Takes start (line >>= f) result := h start.current.line

theorem takes_room {f : List Token → Parser β}
    (h : Takes start (f (start.last :: start.ahead)) result) : Takes start (room >>= f) result := h

theorem takes_skip {f : Unit → Parser β} (some : start.kind ≠ .mark .endOfInput)
    (h : ∀ ⦃t rest⦄, start = .behind [t] rest → t.kind = start.kind →
      Takes rest (f ()) fun more b => result (t :: more) b) : Takes start (skip >>= f) result := by
  intro closed b rest eq
  obtain ⟨ahead, last⟩ := start
  cases ahead with
  | nil => exact absurd closed some
  | cons t ahead =>
    have front : (⟨t :: ahead, last⟩ : Tokens) = .behind [t] ⟨ahead, last⟩ := rfl
    obtain ⟨more, split, inner, stands⟩ := h front rfl closed eq
    refine ⟨t :: more, ?_, List.forall_mem_cons.2 ⟨some, inner⟩, stands⟩
    rw [Tokens.mk.injEq] at split
    rw [Tokens.behind, split.1, split.2]
    rfl

/-- A parser that takes a mark if it is there. -/
theorem takes_take {m : Mark} {f : Bool → Parser β} (inner : m ≠ .endOfInput)
    (yes : ∀ ⦃t rest⦄, start = .behind [t] rest → t.kind = .mark m →
      Takes rest (f true) fun more b => result (t :: more) b)
    (no : start.kind.isMark m = false → Takes start (f false) result) :
    Takes start (take m >>= f) result := by
  intro closed b rest eq
  rw [take_bind] at eq
  cases seen : start.at? m with
  | true =>
    have kind : start.kind = .mark m := Kind.isMark_iff.1 seen
    rw [if_pos seen] at eq
    have some : start.kind ≠ .mark .endOfInput := fun ended =>
      inner (Kind.mark.inj (kind.symm.trans ended))
    exact takes_skip (f := fun _ => f true) some (fun t rest split same =>
      yes split (same.trans kind)) closed eq
  | false =>
    rw [if_neg (Bool.eq_false_iff.1 seen)] at eq
    exact no seen closed eq

theorem takes_expect {m : Mark} {c : Complaint} {f : Unit → Parser β} (inner : m ≠ .endOfInput)
    (h : ∀ ⦃t rest⦄, start = .behind [t] rest → t.kind = .mark m →
      Takes rest (f ()) fun more b => result (t :: more) b) :
    Takes start (expect m c >>= f) result := by
  have mark : Takes start (expect m c) fun ts _ => ∃ t, ts = [t] ∧ t.kind = .mark m :=
    takes_take inner (fun t rest _ kind => takes_pure ⟨t, rfl, kind⟩) fun _ => takes_fail c
  refine mark.bind fun taken rest _ split marks => ?_
  obtain ⟨t, rfl, kind⟩ := marks
  exact h split kind

theorem takes_name {c : Complaint} {f : String → Parser β}
    (h : ∀ ⦃t rest s⦄, start = .behind [t] rest → t.kind = .name s →
      Takes rest (f s) fun more b => result (t :: more) b) :
    Takes start (name c >>= f) result := by
  have text : Takes start (name c) fun ts s => ∃ t, ts = [t] ∧ t.kind = .name s := by
    refine takes_peek ?_
    split
    · next s kind =>
      exact takes_skip (by simp [kind]) fun t rest _ same => takes_pure ⟨t, rfl, same.trans kind⟩
    · exact takes_fail c
  refine text.bind fun taken rest s split names => ?_
  obtain ⟨t, rfl, kind⟩ := names
  exact h split kind

/-- A thing and the mark that closes it, behind the one that opens it. -/
theorem Takes.between {opening closing : Mark} {c : Complaint} {o : Token} {start : Tokens}
    (h : Takes start p phrase) (inner : closing ≠ .endOfInput) (opens : o.kind = .mark opening)
    (h' : ∀ ⦃taken rest a⦄, Phrase.Between opening closing phrase (o :: taken) a →
      Takes rest (f a) fun more b => result (taken ++ more) b) :
    Takes start (p >>= fun a => expect closing c >>= fun _ => f a) result := by
  refine h.bind fun taken rest a _ stands => takes_expect inner fun t rest _ closes => ?_
  refine (h' (.intro opens stands closes)).mono fun more b => ?_
  rw [List.append_assoc, List.singleton_append]
  exact id

end Rules

section Expressions

variable {start : Tokens} {inner deeper operand : Parser Expr} {I D O : Phrase Expr}

/-! ## Lists -/

/-- The items of a list, behind those that have been read. -/
theorem takes_listFrom {α : Type} {item : Parser α} {close : Mark} {phrase : Phrase α}
    (each : ∀ start, Takes start item phrase) (room : List Token) (start : Tokens)
    (before : List α) :
    Takes start (listFrom item close room before) fun ts as =>
      ∃ rest, as = before.reverse ++ rest ∧ Phrase.Listed .comma phrase ts rest := by
  induction room generalizing start before with
  | nil => exact takes_pure ⟨[], (List.append_nil _).symm, .nil⟩
  | cons _ room ih =>
    refine takes_sees ?_
    split
    · exact takes_pure ⟨[], (List.append_nil _).symm, .nil⟩
    · refine (each start).bind fun taken rest a _ stands => ?_
      refine takes_take (by decide) (fun t rest _ separates => ?_) fun _ => ?_
      · refine (ih rest (a :: before)).mono fun more as => ?_
        rintro ⟨others, rfl, listed⟩
        exact ⟨a :: others, by simp, .cons stands separates listed⟩
      · exact takes_pure ⟨[a], by simp, by simpa using .last stands⟩

theorem takes_items (each : ∀ start, Takes start inner I) (close : Mark) (start : Tokens) :
    Takes start (items inner close) (Phrase.Listed .comma I) := by
  refine takes_room ?_
  rw [itemsFrom_eq]
  refine (takes_listFrom each _ start []).mono fun ts es => ?_
  rintro ⟨rest, rfl, listed⟩
  exact listed

theorem takes_entry (each : ∀ start, Takes start inner I) (start : Tokens) :
    Takes start (entry inner) (Phrase.Entry I) := by
  have key : Takes start key fun ts s =>
      ∃ t : Token, ts = [t] ∧ (t.kind = .name s ∨ t.kind = .string s) := by
    refine takes_peek ?_
    split
    · next s kind =>
      exact takes_skip (by simp [kind]) fun t rest _ same =>
        takes_pure ⟨t, rfl, Or.inl (same.trans kind)⟩
    · next s kind =>
      exact takes_skip (by simp [kind]) fun t rest _ same =>
        takes_pure ⟨t, rfl, Or.inr (same.trans kind)⟩
    · exact takes_fail _
  refine key.bind fun taken rest k _ names => ?_
  obtain ⟨t, rfl, names⟩ := names
  refine takes_expect (by decide) fun c rest _ colon => ?_
  refine (each rest).bind fun ts rest e _ stands => takes_pure ?_
  rw [List.append_nil]
  exact .intro names colon stands

theorem takes_entriesFrom (each : ∀ start, Takes start inner I) (room : List Token)
    (start : Tokens) :
    Takes start (entriesFrom inner room []) (Phrase.Listed .comma (Phrase.Entry I)) := by
  rw [entriesFrom_eq]
  refine (takes_listFrom (takes_entry each) room start []).mono fun ts entries => ?_
  rintro ⟨rest, rfl, listed⟩
  exact listed

/-! ## Expressions -/

theorem takes_chainFrom {joiner? : Kind → Option (Expr → Expr → Expr)}
    (inner : joiner? (.mark .endOfInput) = none) (each : ∀ start, Takes start operand O)
    (room : List Token) (start : Tokens) {before : List Token} {left : Expr}
    (l : Phrase.Chain joiner? O before left) :
    Takes start (chainFrom joiner? operand room left) fun ts e =>
      Phrase.Chain joiner? O (before ++ ts) e := by
  induction room generalizing start before left with
  | nil => exact takes_pure (by rwa [List.append_nil])
  | cons _ room ih =>
    refine takes_peek ?_
    split
    · exact takes_pure (by rwa [List.append_nil])
    · next join joins =>
      have some : start.kind ≠ .mark .endOfInput := fun ended => by
        rw [ended, inner] at joins
        cases joins
      refine takes_skip some fun t rest _ same => ?_
      refine (each rest).bind fun taken rest right _ stands => ?_
      refine (ih rest (.join l (same ▸ joins) stands)).mono fun more e => ?_
      rw [List.append_assoc, List.cons_append]
      exact id

theorem takes_chain {joiner? : Kind → Option (Expr → Expr → Expr)}
    (inner : joiner? (.mark .endOfInput) = none) (each : ∀ start, Takes start operand O)
    (start : Tokens) : Takes start (chain joiner? operand) (Phrase.Chain joiner? O) :=
  (each start).bind fun _ rest _ _ stands => takes_room <|
    takes_chainFrom inner each _ rest (.operand stands)

theorem takes_disjunction (each : ∀ start, Takes start operand O) :
    ∀ start, Takes start (disjunction operand) (Phrase.Disjunction O) :=
  takes_chain rfl <| takes_chain rfl <| takes_chain rfl <| takes_chain rfl <| takes_chain rfl each

theorem takes_primary (each : ∀ start, Takes start inner I) (start : Tokens) :
    Takes start (primary inner) (Phrase.Primary I) := by
  refine takes_peek ?_
  split
  case h_1 kind | h_2 kind | h_3 kind =>
    refine takes_skip (by simp [kind]) fun t rest _ same => takes_pure ?_
    first
    | exact .number (same.trans kind)
    | exact .string (same.trans kind)
    | exact .name (same.trans kind)
  case h_4 kind =>
    exact takes_skip (by simp [kind]) fun t rest _ same =>
      takes_pure (.bool true (same.trans kind))
  case h_5 kind =>
    exact takes_skip (by simp [kind]) fun t rest _ same =>
      takes_pure (.bool false (same.trans kind))
  case h_6 kind =>
    exact takes_skip (by simp [kind]) fun t rest _ same => takes_pure (.null (same.trans kind))
  case h_7 kind =>
    refine takes_skip (by simp [kind]) fun o rest _ same => ?_
    exact (each rest).between (by decide) (same.trans kind) fun ts rest e h =>
      takes_pure (by simpa using .group h)
  case h_8 kind =>
    refine takes_skip (by simp [kind]) fun o rest _ same => ?_
    exact (takes_items each _ rest).between (by decide) (same.trans kind) fun ts rest es h =>
      takes_pure (by simpa using .array h)
  case h_9 kind =>
    refine takes_skip (by simp [kind]) fun o rest _ same => takes_room ?_
    exact (takes_entriesFrom each _ rest).between (by decide) (same.trans kind)
      fun ts rest entries h => takes_pure (by simpa using .map h)
  case h_10 => exact takes_fail _

theorem takes_suffixesFrom (each : ∀ start, Takes start inner I) (room : List Token)
    (start : Tokens) {before : List Token} {e : Expr} (x : Phrase.Suffixed I before e) :
    Takes start (suffixesFrom inner room e) fun ts e => Phrase.Suffixed I (before ++ ts) e := by
  induction room generalizing start before e with
  | nil => exact takes_pure (by rwa [List.append_nil])
  | cons _ room ih =>
    refine takes_peek ?_
    split
    · next kind =>
      refine takes_skip (by simp [kind]) fun o rest _ same => ?_
      refine (takes_items each _ rest).between (by decide) (same.trans kind)
        fun ts rest args h => ?_
      refine (ih rest (.call x h)).mono fun more e => ?_
      rw [List.append_assoc]
      exact id
    · next kind =>
      refine takes_skip (by simp [kind]) fun d rest _ same => takes_name fun n rest s _ names => ?_
      refine (ih rest (.property x (same.trans kind) names)).mono fun more e => ?_
      rw [List.append_assoc]
      exact id
    · next kind =>
      refine takes_skip (by simp [kind]) fun o rest _ same => ?_
      refine (each rest).between (by decide) (same.trans kind) fun ts rest i h => ?_
      refine (ih rest (.index x h)).mono fun more e => ?_
      rw [List.append_assoc]
      exact id
    · exact takes_pure (by rwa [List.append_nil])

theorem takes_signedWith (each : ∀ start, Takes start inner I)
    (next : ∀ start, Takes start deeper D) (start : Tokens) :
    Takes start (signedWith inner deeper) (Phrase.Signed I D) := by
  have suffixed : Takes start (suffixed inner) (Phrase.Suffixed I) :=
    (takes_primary each start).bind fun _ rest _ _ stands => takes_room <|
      takes_suffixesFrom each _ rest (.primary stands)
  refine takes_peek ?_
  split
  · next op signs =>
    have some : start.kind ≠ .mark .endOfInput := fun ended => by
      rw [ended] at signs
      cases signs
    refine takes_skip some fun t rest _ same => (next rest).bind fun ts rest e _ stands => ?_
    refine takes_pure ?_
    rw [List.append_nil]
    exact .sign (same ▸ signs) stands
  · refine suffixed.bind fun ts rest e _ stands => ?_
    refine takes_take (by decide) (fun t rest _ raises => ?_) fun _ => takes_pure ?_
    · refine (next rest).bind fun ts' rest exponent _ stands' => takes_pure ?_
      rw [List.append_nil]
      exact .power stands raises stands'
    · rw [List.append_nil]
      exact .base stands

theorem takes_tooDeep {α : Type} (start : Tokens) : Takes start tooDeep (Phrase.Never (α := α)) :=
  takes_fail _

theorem takes_signedAt (depth : Nat) :
    ∀ start, Takes start (signedAt depth) (Phrase.SignedAt depth) := by
  induction depth with
  | zero => exact takes_signedWith takes_tooDeep takes_tooDeep
  | succ depth ih => exact takes_signedWith (takes_disjunction ih) ih

theorem takes_expressionAt (depth : Nat) :
    ∀ start, Takes start (expressionAt depth) (Phrase.ExpressionAt depth) := by
  cases depth with
  | zero => exact takes_tooDeep
  | succ depth => exact takes_disjunction (takes_signedAt depth)

end Expressions

section Statements

variable {start : Tokens} {expression : Parser Expr} {statement : Parser Stmt}
  {block : Parser (List Stmt)} {E : Phrase Expr} {S : Phrase Stmt} {B : Phrase (List Stmt)}

/-! ## Simple statements -/

theorem takes_separatorsFrom (room : List Token) (start : Tokens) :
    Takes start (skipSeparatorsFrom room) fun ts _ => Phrase.Separators ts := by
  induction room generalizing start with
  | nil => exact takes_pure (List.forall_mem_nil _)
  | cons _ room ih =>
    refine takes_peek ?_
    split
    · next kind =>
      exact takes_skip (by simp [kind]) fun t rest _ same => (ih rest).mono fun more _ free =>
        List.forall_mem_cons.2 ⟨.inl (same.trans kind), free⟩
    · next kind =>
      exact takes_skip (by simp [kind]) fun t rest _ same => (ih rest).mono fun more _ free =>
        List.forall_mem_cons.2 ⟨.inr (same.trans kind), free⟩
    · exact takes_pure (List.forall_mem_nil _)

theorem takes_separators (start : Tokens) :
    Takes start skipSeparators fun ts _ => Phrase.Separators ts :=
  takes_room (takes_separatorsFrom _ start)

/-- Whether nothing of a statement can follow. -/
def atEnd : Kind → Bool
  | .mark .newline | .mark .semicolon | .mark .endOfInput | .mark .dedent => true
  | _ => false

theorem atStatementEnd_bind {β : Type} (f : Bool → Parser β) (ts : Tokens) :
    (atStatementEnd >>= f) ts = f (atEnd ts.kind) ts := by
  have eq : atStatementEnd = peek >>= fun kind => pure (atEnd kind) := by
    refine bind_congr fun kind => ?_
    cases kind with
    | mark m => cases m <;> rfl
    | _ => rfl
  rw [eq, bind_assoc, peek_bind, pure_bind]

theorem takes_atStatementEnd {β : Type} {f : Bool → Parser β} {result : Phrase β}
    (h : ∀ ended, Takes start (f ended) result) : Takes start (atStatementEnd >>= f) result := by
  have front : Takes start atStatementEnd fun ts _ => ts = [] := by
    refine takes_peek ?_
    split <;> exact takes_pure rfl
  refine front.bind fun taken rest ended split none => ?_
  subst none
  rw [show start = rest from split] at h
  exact h ended

theorem takes_endStatement (start : Tokens) :
    Takes start endStatement fun ts _ => Phrase.Separators ts := by
  refine takes_peek ?_
  split
  · next kind =>
    exact takes_skip (f := pure) (by simp [kind]) fun t rest _ same =>
      takes_pure (List.forall_mem_singleton.2 (.inl (same.trans kind)))
  · next kind =>
    exact takes_skip (f := pure) (by simp [kind]) fun t rest _ same =>
      takes_pure (List.forall_mem_singleton.2 (.inr (same.trans kind)))
  · exact takes_pure (List.forall_mem_nil _)
  · exact takes_pure (List.forall_mem_nil _)
  · exact takes_fail _

theorem takes_simple (each : ∀ start, Takes start expression E) (start : Tokens) :
    Takes start (simpleStatement expression) (Phrase.Plain E) := by
  refine takes_line fun n => (each start).bind fun ts rest e _ stands => takes_peek ?_
  split
  · refine takes_pure ?_
    rw [List.append_nil]
    exact .expression n stands
  · next op assigns =>
    split
    · exact takes_fail _
    · next target named =>
      have some : rest.kind ≠ .mark .endOfInput := fun ended => by
        rw [ended] at assigns
        cases assigns
      refine takes_skip some fun t rest _ same => ?_
      refine (each rest).bind fun ts' rest value _ stands' => takes_pure ?_
      rw [List.append_nil]
      exact .assign n stands named (same ▸ assigns) stands'

theorem takes_leave (each : ∀ start, Takes start expression E)
    (kind : start.kind = .mark .returnWord) :
    Takes start (leaveStatement expression) (Phrase.Plain E) := by
  refine takes_line fun n => takes_skip (by simp [kind]) fun t rest _ same => ?_
  refine takes_atStatementEnd fun ended => ?_
  split
  · exact takes_pure (.leave n (same.trans kind))
  · refine (each rest).bind fun ts rest e _ stands => takes_pure ?_
    rw [List.append_nil]
    exact .leaveWith n (same.trans kind) stands

theorem takes_plain (each : ∀ start, Takes start expression E) (start : Tokens) :
    Takes start (plainStatement expression) (Phrase.Plain E) := by
  refine takes_sees ?_
  split
  · next leaves => exact takes_leave each (Kind.isMark_iff.1 leaves)
  · exact takes_simple each start

/-! ## Statements with blocks -/

theorem takes_parametersFrom (room : List Token) (start : Tokens) (before : List String) :
    Takes start (parametersFrom room before) fun ts params =>
      ∃ more, params = before.reverse ++ more ∧
        Phrase.Listed .comma Phrase.Parameter ts more := by
  induction room generalizing start before with
  | nil => exact takes_fail _
  | cons _ room ih =>
    refine takes_name fun t rest param _ names => ?_
    have parameter : Phrase.Parameter [t] param := ⟨t, rfl, names⟩
    split
    · exact takes_fail _
    · refine takes_take (by decide) (fun c rest _ separates => takes_sees ?_) fun _ => ?_
      · split
        · exact takes_pure ⟨[param], by simp, .cons parameter separates .nil⟩
        · refine (ih rest (param :: before)).mono fun more params => ?_
          rintro ⟨others, rfl, listed⟩
          exact ⟨param :: others, by simp, .cons parameter separates listed⟩
      · exact takes_pure ⟨[param], by simp, .last parameter⟩

theorem takes_parameters (kind : start.kind = .mark .leftParen) :
    Takes start parameters
      (Phrase.Between .leftParen .rightParen (Phrase.Listed .comma Phrase.Parameter)) := by
  refine takes_skip (by simp [kind]) fun o rest _ same => ?_
  refine takes_sees ?_
  split
  · have none : Takes rest (pure []) (Phrase.Listed .comma Phrase.Parameter) := takes_pure .nil
    exact none.between (by decide) (same.trans kind) fun ts rest params h =>
      takes_pure (by simpa using h)
  · have listed : ∀ room, Takes rest (parametersFrom room [])
        (Phrase.Listed .comma Phrase.Parameter) := fun room => by
      refine (takes_parametersFrom room rest []).mono fun ts params => ?_
      rintro ⟨more, rfl, listed⟩
      exact listed
    exact takes_room ((listed _).between (by decide) (same.trans kind) fun ts rest params h =>
      takes_pure (by simpa using h))

theorem takes_atFunction {β : Type} {f : Bool → Parser β} {result : Phrase β}
    (h : Takes start (f (header start.ahead)) result) : Takes start (atFunction >>= f) result := h

/-- Behind the name of a function stand its parameters. -/
theorem kind_of_header {t : Token} {rest : Tokens} (h : header (t :: rest.ahead) = true) :
    rest.kind = .mark .leftParen := by
  obtain ⟨ahead, last⟩ := rest
  unfold header at h
  split at h
  · next next more eq =>
    obtain ⟨rfl, rfl⟩ := List.cons.inj eq
    split at h
    · exact Kind.isMark_iff.1 (Bool.and_eq_true_iff.1 h).1
    · cases h
  · cases h

theorem takes_function (blocks : ∀ start, Takes start block B) (found : header start.ahead = true) :
    Takes start (functionStatement block) (Phrase.Statement E B) := by
  refine takes_line fun n => takes_name fun t rest name split names => ?_
  subst split
  refine (takes_parameters (kind_of_header found)).bind fun ts rest params _ listed => ?_
  refine (blocks rest).bind fun ts' rest body _ stands => takes_pure ?_
  rw [List.append_nil]
  exact .function n names listed stands

theorem takes_branchesFrom (each : ∀ start, Takes start expression E)
    (blocks : ∀ start, Takes start block B) (room : List Token) (start : Tokens)
    (before : List (Expr × List Stmt)) :
    Takes start (branchesFrom expression block room before) fun ts r =>
      ∃ more, r.1 = before.reverse ++ more ∧ Phrase.Branches E B ts (more, r.2) := by
  induction room generalizing start before with
  | nil => exact takes_pure ⟨[], (List.append_nil _).symm, .nil⟩
  | cons _ room ih =>
    refine takes_take (by decide) (fun t rest _ kind => ?_) fun _ => ?_
    · refine takes_take (by decide) (fun t' rest _ kind' => ?_) fun _ => ?_
      · refine (each rest).bind fun ts rest condition _ c => ?_
        refine (blocks rest).bind fun ts' rest body _ b => ?_
        refine (ih rest ((condition, body) :: before)).mono fun ts'' r => ?_
        rintro ⟨more, eq, branches⟩
        exact ⟨(condition, body) :: more, by simp [eq], .cons kind kind' c b branches⟩
      · refine (blocks rest).bind fun ts rest body _ b => takes_pure ?_
        rw [List.append_nil]
        exact ⟨[], (List.append_nil _).symm, .otherwise kind b⟩
    · exact takes_pure ⟨[], (List.append_nil _).symm, .nil⟩

theorem takes_choose (each : ∀ start, Takes start expression E)
    (blocks : ∀ start, Takes start block B) (kind : start.kind = .mark .ifWord) :
    Takes start (chooseStatement expression block) (Phrase.Statement E B) := by
  refine takes_line fun n => takes_skip (by simp [kind]) fun t rest _ same => ?_
  refine (each rest).bind fun ts rest condition _ c => ?_
  refine (blocks rest).bind fun ts' rest body _ b => takes_room ?_
  refine (takes_branchesFrom each blocks _ rest _).bind fun ts'' rest r _ branches => ?_
  obtain ⟨all, otherwise⟩ := r
  obtain ⟨more, rfl, branches⟩ := branches
  refine takes_pure ?_
  rw [List.append_nil]
  exact .choose n (same.trans kind) c b branches

theorem takes_loop (each : ∀ start, Takes start expression E)
    (blocks : ∀ start, Takes start block B) (kind : start.kind = .mark .forWord) :
    Takes start (loopStatement expression block) (Phrase.Statement E B) := by
  refine takes_line fun n => takes_skip (by simp [kind]) fun t rest _ same => ?_
  refine takes_name fun name rest _ _ names => takes_expect (by decide) fun i rest _ kind' => ?_
  refine (each rest).bind fun ts rest subject _ s => ?_
  refine (blocks rest).bind fun ts' rest body _ b => takes_pure ?_
  rw [List.append_nil]
  exact .loop n (same.trans kind) names kind' s b

theorem takes_statementWith (each : ∀ start, Takes start expression E)
    (blocks : ∀ start, Takes start block B) (start : Tokens) :
    Takes start (statementWith expression block) (Phrase.Statement E B) := by
  refine takes_peek ?_
  split
  · next kind => exact takes_choose each blocks kind
  · next kind => exact takes_loop each blocks kind
  · refine takes_atFunction ?_
    split
    · next found => exact takes_function blocks found
    · refine (takes_plain each start).bind fun ts rest stmt _ plain => ?_
      refine (takes_endStatement rest).bind fun behind rest _ _ free => takes_pure ?_
      rw [List.append_nil]
      exact .plain plain free

/-! ## Blocks -/

theorem takes_suiteFrom (stmts : ∀ start, Takes start statement S) (room : List Token)
    (start : Tokens) (before : List Stmt) :
    Takes start (suiteFrom statement room before) fun ts all =>
      ∃ inner dedent more, ts = inner ++ [dedent] ∧ dedent.kind = .mark .dedent ∧
        all = before.reverse ++ more ∧ Phrase.Statements S inner more := by
  unfold suiteFrom
  refine (takes_separators start).bind fun free rest _ _ separators => ?_
  refine takes_take (by decide) (fun d rest _ kind => takes_pure ?_) fun _ => takes_sees ?_
  · exact ⟨free, d, [], rfl, kind, (List.append_nil _).symm, .nil separators⟩
  · split
    · exact takes_fail _
    · cases room with
      | nil => exact takes_fail _
      | cons _ room =>
        refine (stmts rest).bind fun ts rest stmt _ stands => ?_
        refine (takes_suiteFrom stmts room rest (stmt :: before)).mono fun ts' all => ?_
        rintro ⟨inner, d, more, rfl, kind, rfl, others⟩
        exact ⟨free ++ (ts ++ inner), d, stmt :: more, by simp, kind, by simp,
          .cons separators stands others⟩

theorem takes_inlineFrom (each : ∀ start, Takes start expression E) (room : List Token)
    (start : Tokens) (before : List Stmt) :
    Takes start (inlineFrom expression room before) fun ts all =>
      ∃ more, all = before.reverse ++ more ∧
        Phrase.Listed .semicolon (Phrase.Plain E) ts more := by
  unfold inlineFrom
  refine (takes_plain each start).bind fun ts rest stmt _ plain => ?_
  cases room with
  | nil => exact takes_pure ⟨[stmt], by simp, by simpa using .last plain⟩
  | cons _ room =>
    refine takes_take (by decide) (fun t rest _ separates => ?_) fun _ => takes_pure ?_
    · refine takes_atStatementEnd fun ended => ?_
      split
      · exact takes_pure ⟨[stmt], by simp, .cons plain separates .nil⟩
      · refine (takes_inlineFrom each room rest (stmt :: before)).mono fun more all => ?_
        rintro ⟨others, rfl, listed⟩
        exact ⟨stmt :: others, by simp, .cons plain separates listed⟩
    · exact ⟨[stmt], by simp, by simpa using .last plain⟩

theorem takes_suite (each : ∀ start, Takes start expression E)
    (stmts : ∀ start, Takes start statement S) (start : Tokens) :
    Takes start (suite expression statement) (Phrase.Suite E S) := by
  refine takes_expect (by decide) fun c rest _ colon => ?_
  refine takes_take (by decide) (fun n rest _ newline => ?_) fun _ => takes_room ?_
  · refine takes_take (by decide) (fun i rest _ indent => takes_room ?_) fun _ => takes_fail _
    refine (takes_suiteFrom stmts _ rest []).mono fun ts all => ?_
    rintro ⟨inner, d, more, rfl, dedent, rfl, others⟩
    exact .indented colon newline indent others dedent
  · refine (takes_inlineFrom each _ rest []).bind fun ts rest all _ inlined => ?_
    obtain ⟨more, rfl, listed⟩ := inlined
    refine (takes_endStatement rest).bind fun behind rest _ _ free => takes_pure ?_
    rw [List.append_nil]
    exact .inline colon listed free

theorem takes_statementAt (depth : Nat) :
    ∀ start, Takes start (statementAt depth) (Phrase.StatementAt depth) := by
  induction depth with
  | zero => exact takes_statementWith (takes_expressionAt 0) takes_tooDeep
  | succ depth ih =>
    exact takes_statementWith (takes_expressionAt _) (takes_suite (takes_expressionAt depth) ih)

/-! ## Programs -/

/-- A parser takes a token whenever it succeeds. -/
def TakesSome {α : Type} (p : Parser α) : Prop :=
  ∀ ⦃ts⦄, ts.Closed → ∀ ⦃a rest⦄, p ts = .ok (a, rest) → rest.ahead.length < ts.ahead.length

theorem Takes.takesSome {α : Type} {p : Parser α} {phrase : Phrase α}
    (h : ∀ start, Takes start p phrase) (solid : Phrase.Solid phrase) : TakesSome p := by
  intro ts closed a rest read
  obtain ⟨taken, rfl, -, stands⟩ := h ts closed read
  have some := List.length_pos_iff.2 (solid stands)
  rw [Tokens.behind, List.length_append]
  omega

theorem takes_closed {α : Type} {p : Parser α} {phrase : Phrase α}
    (h : start.Closed → Takes start p phrase) : Takes start p phrase :=
  fun closed => h closed closed

/-- The statements of a program go on up to the end of the input: each takes a token, and there is
room for as many. -/
theorem takes_statementsFrom (stmts : ∀ start, Takes start statement S) (solid : Phrase.Solid S)
    (room : List Token) (start : Tokens) (before : List Stmt)
    (enough : start.ahead.length ≤ room.length) :
    Takes start (statementsFrom statement room before) fun ts all =>
      (∃ more, all = before.reverse ++ more ∧ Phrase.Statements S ts more) ∧
        (start.drop ts.length).kind = .mark .endOfInput := by
  have done : ∀ {before : List Stmt} {free : List Token} {rest : Tokens},
      Phrase.Separators free → rest.kind = .mark .endOfInput →
      Takes rest (pure before.reverse) fun ts all =>
        (∃ more, all = before.reverse ++ more ∧ Phrase.Statements S (free ++ ts) more) ∧
          ((Tokens.behind free rest).drop (free ++ ts).length).kind = .mark .endOfInput := by
    intro before free rest separators ended
    refine takes_pure ⟨⟨[], (List.append_nil _).symm, .nil ?_⟩, ?_⟩
    · rwa [List.append_nil]
    · rwa [Tokens.drop_behind]
  unfold statementsFrom
  refine (takes_separators start).bind fun free rest _ split separators => ?_
  subst split
  refine takes_sees ?_
  split
  · next ended => exact done separators (Kind.isMark_iff.1 ended)
  · refine takes_sees ?_
    split
    · exact takes_fail _
    · cases room with
      | nil =>
        refine takes_closed fun closed => done separators ?_
        have none : free ++ rest.ahead = [] := List.eq_nil_of_length_eq_zero (Nat.le_zero.1 enough)
        rw [Tokens.kind, Tokens.current, (List.append_eq_nil_iff.1 none).2]
        exact closed
      | cons _ room =>
        refine (stmts rest).bind fun ts rest stmt split stands => ?_
        subst split
        have shorter : rest.ahead.length ≤ room.length := by
          have taken := List.length_pos_iff.2 (solid stands)
          simp only [Tokens.behind, List.length_append, List.length_cons] at enough
          omega
        have others := takes_statementsFrom stmts solid room rest (stmt :: before) shorter
        refine others.mono fun ts' all => ?_
        rintro ⟨⟨more, rfl, others⟩, ended⟩
        refine ⟨⟨stmt :: more, by simp, .cons separators stands others⟩, ?_⟩
        rwa [Tokens.drop_behind, Tokens.drop_behind]

end Statements

theorem takes_program (start : Tokens) :
    Takes start program fun ts p =>
      Phrase.Statements (Phrase.StatementAt nestingLimit) ts p.statements ∧
        (start.drop ts.length).kind = .mark .endOfInput := by
  have enough : start.ahead.length ≤ (start.last :: start.ahead).length := Nat.le_succ _
  have stmts := takes_statementsFrom (takes_statementAt nestingLimit)
    (Phrase.StatementAt.ne_nil nestingLimit) (start.last :: start.ahead) start [] enough
  refine takes_room (stmts.bind fun ts rest all split read => ?_)
  obtain ⟨⟨more, rfl, stands⟩, ended⟩ := read
  refine takes_pure ?_
  rw [List.append_nil]
  exact ⟨stands, ended⟩

end Parser

/-! ## Lists of tokens -/

theorem Tokens.ofList_closed (tokens : List Token) : (Tokens.ofList tokens).Closed := by
  unfold Tokens.ofList
  split
  · split
    · next closed => exact Kind.isMark_iff.1 closed
    · unfold closing
      split <;> rfl
  · rfl

/-- A list of tokens with the end of the input behind it, if it was not there yet. -/
theorem Tokens.ofList_ahead (tokens : List Token) :
    tokens = (Tokens.ofList tokens).ahead ∨
      tokens = (Tokens.ofList tokens).ahead ++ [(Tokens.ofList tokens).last] := by
  unfold Tokens.ofList
  split
  · next t last =>
    split
    · exact .inr (List.dropLast_append_getLast? t last).symm
    · exact .inl rfl
  · next none => exact .inl (List.getLast?_eq_none_iff.1 none)

/-- What has been taken up to the end of the input is what stands before it. -/
theorem Tokens.takeWhile_ofList {tokens taken : List Token} {rest : Tokens}
    (split : Tokens.ofList tokens = .behind taken rest)
    (inner : ∀ t ∈ taken, t.kind ≠ .mark .endOfInput) (ended : rest.kind = .mark .endOfInput) :
    (tokens.takeWhile fun t => !t.kind.isMark .endOfInput) = taken := by
  have stops : ∀ more : List Token, (∀ t ∈ more.head?, t = rest.current) →
      ((taken ++ more).takeWhile fun t => !t.kind.isMark .endOfInput) = taken := by
    intro more front
    have passes : ∀ t ∈ taken, (!t.kind.isMark .endOfInput) = true := fun t mem => by
      rw [Bool.not_eq_true', Bool.eq_false_iff]
      exact fun eq => inner t mem (Kind.isMark_iff.1 eq)
    rw [List.takeWhile_append_of_pos passes]
    cases more with
    | nil => exact List.append_nil _
    | cons t more =>
      have kind : t.kind = .mark .endOfInput := by
        rw [front t rfl]
        exact ended
      rw [List.takeWhile_cons_of_neg (by simp [kind, Parser.isMark_self]), List.append_nil]
  obtain eq | eq := Tokens.ofList_ahead tokens
  · rw [eq, split]
    exact stops _ fun t front => by rw [Tokens.current, Option.mem_def.1 front, Option.getD_some]
  · rw [eq, split, Tokens.behind, List.append_assoc]
    refine stops _ fun t front => ?_
    rw [List.head?_append, List.head?_singleton, Option.mem_def] at front
    rw [Tokens.current]
    cases first : rest.ahead.head? with
    | none => simpa [first, eq_comm] using front
    | some t' => simpa [first, eq_comm] using front

namespace Program

/-- The tokens of an accepted program before the end of the input stand for its statements. -/
theorem statements_of_ofTokens? {tokens : List Token} {p : Program}
    (h : ofTokens? tokens = .ok p) :
    Phrase.Statements (Phrase.StatementAt Parser.nestingLimit)
      (tokens.takeWhile fun t => !t.kind.isMark .endOfInput) p.statements := by
  unfold ofTokens? at h
  split at h
  · cases h
  · cases run : Parser.program (Tokens.ofList tokens) with
    | error e =>
      rw [StateT.run, run] at h
      cases h
    | ok r =>
      rw [StateT.run, run] at h
      cases h
      obtain ⟨taken, split, inner, stands, ended⟩ :=
        Parser.takes_program _ (Tokens.ofList_closed tokens) run
      have rest := Tokens.drop_behind taken [] r.2
      rw [List.append_nil, ← split] at rest
      rw [Tokens.takeWhile_ofList split inner (by rwa [rest] at ended)]
      exact stands

end Program

end SheetScript
