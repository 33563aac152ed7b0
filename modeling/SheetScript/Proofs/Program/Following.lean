import SheetScript.Proofs.Program.Accepts
import SheetScript.Proofs.Program.Guarded

/-!
# The guarded parser beside the parser

The guarded parser moves a cursor along a list of tokens where the parser takes tokens from the
front. From an index on the two reject with the same problem or read the same, and no guard fails.

* `Agree` compares two runs, `Follows` two parsers from an index on, `Serves` from every index.
  There is one rule for each thing that a parser does.
* `Turns` is what has to be shown of one round of a loop: if another round comes, a token has been
  taken. So once for each token and once more is often enough to go round (`Turns.loop`).
* What is said of the parts of an expression is said given the routines that they call.
-/

namespace SheetScript

open Token

/-- All tokens, the closing one at the end. -/
def Tokens.all (ts : Tokens) : List Token := ts.ahead ++ [ts.last]

theorem Tokens.getElem?_all {ts : Tokens} {i : Nat} (h : i ≤ ts.ahead.length) :
    ts.all[i]? = some (ts.drop i).current := by
  rw [all, current, drop, List.head?_drop, List.getElem?_append]
  split_ifs with inside
  · rw [List.getElem?_eq_getElem inside, Option.getD_some]
  · rw [List.getElem?_eq_none (Nat.not_lt.1 inside), Option.getD_none,
      Nat.sub_eq_zero_of_le h, List.getElem?_singleton, if_pos rfl]

theorem Tokens.length_all (ts : Tokens) : ts.all.length = ts.ahead.length + 1 :=
  List.length_append

theorem Tokens.tail_drop (ts : Tokens) (i : Nat) : (ts.drop i).tail = ts.drop (i + 1) := by
  rw [tail, drop, drop, List.drop_drop]

namespace Guarded

variable {α β γ δ : Type}

/-- Two runs agree: both reject with the same problem, or both read the same and the cursor stands
at the tokens that are left, not before the index `i` and not behind the closing token. -/
inductive Agree (start : Tokens) (nesting i : Nat) (post : α → Nat → Prop) :
    Except Stop (α × Cursor) → Except ScriptError (α × Tokens) → Prop
  | rejected (problem : ParseProblem) (line column : Nat) :
      Agree start nesting i post (.error (.rejected (.parse problem line column)))
        (.error (.parse problem line column))
  | read {a : α} {j : Nat} (after : i ≤ j) (inside : j ≤ start.ahead.length) (h : post a j) :
      Agree start nesting i post (.ok (a, ⟨j, nesting⟩)) (.ok (a, start.drop j))

theorem Agree.later {start : Tokens} {n i j : Nat} {post : α → Nat → Prop}
    {x : Except Stop (α × Cursor)} {y : Except ScriptError (α × Tokens)}
    (h : Agree start n j post x y) (after : i ≤ j) : Agree start n i post x y := by
  cases h with
  | rejected problem line column => exact .rejected problem line column
  | read after' inside holds => exact .read (Nat.le_trans after after') inside holds

/-- From the token at the index `i` on, the guarded parser does what the parser does, and no guard
fails. -/
def Follows (start : Tokens) (nesting i : Nat) (g : Guarded α) (p : Parser α)
    (post : α → Nat → Prop) : Prop :=
  start.Closed → i ≤ start.ahead.length →
    Agree start nesting i post (g start.all ⟨i, nesting⟩) (p (start.drop i))

/-- Nothing is said of the result. -/
def anything (_ : α) (_ : Nat) : Prop := True

section Rules

variable {start : Tokens} {n i j : Nat} {post : β → Nat → Prop} {g : Guarded α} {p : Parser α}

/-! ## Rules -/

theorem follows_pure {b : β} (h : post b i) : Follows start n i (pure b) (pure b) post :=
  fun _ inside => .read (Nat.le_refl i) inside h

theorem Follows.bind {mid : α → Nat → Prop} {f : α → Guarded β} {q : α → Parser β}
    (h : Follows start n i g p mid)
    (h' : ∀ a j, i ≤ j → mid a j → Follows start n j (f a) (q a) post) :
    Follows start n i (g >>= f) (p >>= q) post := by
  intro closed inside
  have run : (g >>= f) start.all ⟨i, n⟩ =
    (g start.all ⟨i, n⟩ >>= fun r => f r.1 start.all r.2) := rfl
  have run' : (p >>= q) (start.drop i) = (p (start.drop i) >>= fun r => q r.1 r.2) := rfl
  have first := h closed inside
  rw [run, run']
  generalize g start.all ⟨i, n⟩ = x, p (start.drop i) = y at first
  cases first with
  | rejected problem line column => exact .rejected problem line column
  | @read a j after inside holds =>
    exact (h' a j after holds closed inside).later after

/-- The index goes on if the parser takes a token whenever it succeeds. -/
theorem Follows.progress {after : α → Nat → Prop} (h : Follows start n i g p after)
    (some : Parser.TakesSome p) : Follows start n i g p fun _ j => i < j := by
  intro closed inside
  have result := h closed inside
  have taken : ∀ ⦃a rest⦄, p (start.drop i) = .ok (a, rest) →
      rest.ahead.length < (start.drop i).ahead.length := some closed
  generalize g start.all ⟨i, n⟩ = x, p (start.drop i) = y at result taken
  cases result with
  | rejected problem line column => exact .rejected problem line column
  | @read a j after inside' _ =>
    have shorter := taken rfl
    simp only [Tokens.drop, List.length_drop] at shorter
    exact .read after inside' (by omega)

/-- A step that gives something in both and fails in none. -/
theorem follows_step {g : Guarded α} {p : Parser γ} {f : α → Guarded β} {q : γ → Parser β} {a : α}
    {c : γ} (h : start.Closed → i ≤ start.ahead.length → i ≤ j ∧ j ≤ start.ahead.length ∧
      g start.all ⟨i, n⟩ = .ok (a, ⟨j, n⟩) ∧ p (start.drop i) = .ok (c, start.drop j))
    (h' : Follows start n j (f a) (q c) post) : Follows start n i (g >>= f) (p >>= q) post := by
  intro closed inside
  obtain ⟨after, inside', run, run'⟩ := h closed inside
  have both : (g >>= f) start.all ⟨i, n⟩ = f a start.all ⟨j, n⟩ := by
    show (g start.all ⟨i, n⟩ >>= fun r => f r.1 start.all r.2) = _
    rw [run]
    rfl
  have both' : (p >>= q) (start.drop i) = q c (start.drop j) := by
    show (p (start.drop i) >>= fun r => q r.1 r.2) = _
    rw [run']
    rfl
  rw [both, both']
  exact (h' closed inside').later after

/-- The parser may do something else that comes to the same. -/
theorem Follows.of_eq {g : Guarded β} {p q : Parser β} (h : Follows start n i g q post)
    (same : p (start.drop i) = q (start.drop i)) : Follows start n i g p post := by
  intro closed inside
  rw [same]
  exact h closed inside

theorem run_peek (inside : i ≤ start.ahead.length) :
    Guarded.peek start.all ⟨i, n⟩ = .ok ((start.drop i).current, ⟨i, n⟩) := by
  show tokenAt i start.all ⟨i, n⟩ = _
  rw [tokenAt, Tokens.getElem?_all inside]

theorem run_kind (inside : i ≤ start.ahead.length) :
    Guarded.kind start.all ⟨i, n⟩ = .ok ((start.drop i).kind, ⟨i, n⟩) := by
  show (Guarded.peek start.all ⟨i, n⟩ >>= fun r => .ok (r.1.kind, r.2)) = _
  rw [run_peek inside]
  rfl

theorem follows_kind {f : Kind → Guarded β} {q : Kind → Parser β}
    (h : Follows start n i (f (start.drop i).kind) (q (start.drop i).kind) post) :
    Follows start n i (Guarded.kind >>= f) (Parser.peek >>= q) post :=
  follows_step (fun _ inside => ⟨Nat.le_refl i, inside, run_kind inside, rfl⟩) h

theorem follows_line {f : Nat → Guarded β} {q : Nat → Parser β}
    (h : ∀ line, Follows start n i (f line) (q line) post) :
    Follows start n i (Guarded.line >>= f) (Parser.line >>= q) post := by
  refine follows_step (fun _ inside => ⟨Nat.le_refl i, inside, ?_, rfl⟩)
    (h (start.drop i).current.line)
  show (Guarded.peek start.all ⟨i, n⟩ >>= fun r => .ok (r.1.line, r.2)) = _
  rw [run_peek inside]
  rfl

theorem follows_fail (c : Complaint) : Follows start n i (Guarded.fail c) (Parser.fail c) post := by
  intro _ inside
  have run : (Guarded.fail c : Guarded β) start.all ⟨i, n⟩ =
    (Guarded.peek start.all ⟨i, n⟩ >>= fun r =>
      .error (.rejected (.parse (.complaint c (Found.ofToken r.1)) r.1.line r.1.column))) := rfl
  rw [run, run_peek inside]
  exact .rejected _ _ _

theorem follows_fail_bind (c : Complaint) {f : α → Guarded β} :
    Follows start n i (Guarded.fail c >>= f) (Parser.fail c) post := by
  have never : Follows start n i (Guarded.fail c) (Parser.fail c) (fun (_ : α) _ => False) :=
    follows_fail c
  have both : Follows start n i (Guarded.fail c >>= f) (Parser.fail c >>= fun (_ : α) =>
      Parser.fail c) post := never.bind fun _ _ _ no => no.elim
  exact both.of_eq rfl

/-- There is a token before the closing one. -/
theorem lt_of_kind_ne (closed : start.Closed) (inside : i ≤ start.ahead.length)
    (some : (start.drop i).kind ≠ .mark .endOfInput) : i < start.ahead.length := by
  refine Nat.lt_of_le_of_ne inside fun last => some ?_
  rw [last, Tokens.kind, Tokens.current, Tokens.drop, List.drop_length]
  exact closed

theorem follows_advance {f : Unit → Guarded β} {q : Unit → Parser β}
    (some : (start.drop i).kind ≠ .mark .endOfInput)
    (h : Follows start n (i + 1) (f ()) (q ()) post) :
    Follows start n i (advance >>= f) (Parser.skip >>= q) post := by
  refine follows_step (fun closed inside => ?_) h
  have before := lt_of_kind_ne closed inside some
  refine ⟨Nat.le_succ i, before, ?_, ?_⟩
  · rw [advance, Tokens.length_all, if_pos (Nat.succ_lt_succ before)]
  · rw [Parser.skip, Tokens.tail_drop]

theorem run_check (m : Mark) (inside : i ≤ start.ahead.length) :
    check m start.all ⟨i, n⟩ = .ok ((start.drop i).kind.isMark m, ⟨i, n⟩) := by
  show (Guarded.kind start.all ⟨i, n⟩ >>= fun r => .ok (r.1.isMark m, r.2)) = _
  rw [run_kind inside]
  rfl

theorem follows_check {m : Mark} {f : Bool → Guarded β} {q : Bool → Parser β}
    (h : Follows start n i (f ((start.drop i).kind.isMark m)) (q ((start.drop i).kind.isMark m))
      post) : Follows start n i (check m >>= f) (Parser.sees m >>= q) post :=
  follows_step (fun _ inside => ⟨Nat.le_refl i, inside, run_check m inside, rfl⟩) h

theorem follows_take {m : Mark} (inner : m ≠ .endOfInput) {f : Bool → Guarded β}
    {q : Bool → Parser β}
    (yes : (start.drop i).kind = .mark m → Follows start n (i + 1) (f true) (q true) post)
    (no : Follows start n i (f false) (q false) post) :
    Follows start n i (Guarded.take m >>= f) (Parser.take m >>= q) post := by
  have same : (Parser.take m >>= q) (start.drop i) = (Parser.sees m >>= fun seen =>
      if seen then Parser.skip >>= fun _ => q true else q false) (start.drop i) := by
    rw [Parser.take_bind, Parser.sees_bind, Tokens.at?]
    split_ifs <;> rfl
  unfold Guarded.take
  rw [bind_assoc]
  refine Follows.of_eq (follows_check ?_) same
  split_ifs with seen
  · have kind := Kind.isMark_iff.1 seen
    refine follows_advance (f := fun _ => f true) (q := fun _ => q true) ?_ (yes kind)
    rw [kind]
    exact fun eq => inner (Kind.mark.inj eq)
  · exact no

theorem follows_consume {m : Mark} (inner : m ≠ .endOfInput) {c : Complaint} {f : Unit → Guarded β}
    {q : Unit → Parser β} (h : Follows start n (i + 1) (f ()) (q ()) post) :
    Follows start n i (consume m c >>= f) (Parser.expect m c >>= q) post := by
  have same : (Parser.expect m c >>= q) (start.drop i) = (Parser.sees m >>= fun seen =>
      if seen then Parser.skip >>= q else Parser.fail c >>= q) (start.drop i) := by
    rw [Parser.expect_bind, Parser.sees_bind, Tokens.at?]
    split_ifs <;> rfl
  unfold consume
  rw [bind_assoc]
  refine Follows.of_eq (follows_check ?_) same
  split_ifs with seen
  · refine follows_advance ?_ h
    rw [Kind.isMark_iff.1 seen]
    exact fun eq => inner (Kind.mark.inj eq)
  · exact follows_fail_bind c

/-- The guarded parser asks once more for a mark that is known to be there. -/
theorem follows_consume_seen {m : Mark} (inner : m ≠ .endOfInput) {c : Complaint}
    {f : Unit → Guarded β} {q : Unit → Parser β} (seen : (start.drop i).kind = .mark m)
    (h : Follows start n (i + 1) (f ()) (q ()) post) :
    Follows start n i (consume m c >>= f) (Parser.skip >>= q) post := by
  refine Follows.of_eq (follows_consume inner h) ?_
  rw [Parser.expect_bind, Tokens.at?, if_pos (Kind.isMark_iff.2 seen)]
  rfl

theorem follows_identifier {c : Complaint} {f : String → Guarded β} {q : String → Parser β}
    (h : ∀ s, Follows start n (i + 1) (f s) (q s) post) :
    Follows start n i (identifier c >>= f) (Parser.name c >>= q) post := by
  unfold identifier Parser.name
  rw [bind_assoc, bind_assoc]
  refine follows_kind ?_
  cases kind : (start.drop i).kind with
  | name s =>
    exact follows_advance (f := fun _ => f s) (q := fun _ => q s) (by simp [kind]) (h s)
  | _ => exact follows_fail_bind c

end Rules

/-! ## Loops -/

/-- What comes after a round. -/
def settle (next : β → Guarded γ) : β ⊕ γ → Guarded γ
  | .inl b => next b
  | .inr c => pure c

theorem rounds_succ (step : β → Guarded (β ⊕ γ)) (fuel : Nat) (b : β) :
    rounds step (fuel + 1) b = step b >>= settle (rounds step fuel) := by
  rw [rounds]
  refine bind_congr fun r => ?_
  cases r <;> rfl

section Loops

variable {start : Tokens} {n : Nat} {step : β → Guarded (β ⊕ γ)} {rest : List Token → β → Parser γ}

/-- A round does what the parser does with one token of its room, if all later rounds do: another
round comes only where a token has been taken. -/
def Turns (start : Tokens) (n : Nat) (step : β → Guarded (β ⊕ γ))
    (rest : List Token → β → Parser γ) : Prop :=
  ∀ (t : Token) (room : List Token) (next : β → Guarded γ) (i : Nat) (b : β),
    (∀ j b, i < j → Follows start n j (next b) (rest room b) anything) →
      Follows start n i (step b >>= settle next) (rest (t :: room) b) anything

/-- While there are more rounds than tokens, and more room, neither of them ends the loop. -/
theorem Turns.rounds (h : Turns start n step rest) (fuel : Nat) (room : List Token) (i : Nat)
    (b : β) (fits : start.ahead.length < i + fuel) (fits' : start.ahead.length < i + room.length) :
    Follows start n i (rounds step fuel b) (rest room b) anything := by
  induction fuel generalizing room i b with
  | zero => exact fun _ inside => absurd fits (Nat.not_lt.2 inside)
  | succ fuel ih =>
    cases room with
    | nil => exact fun _ inside => absurd fits' (Nat.not_lt.2 inside)
    | cons t room =>
      rw [List.length_cons] at fits'
      rw [rounds_succ]
      exact h t room _ i b fun j b after => ih room j b (by omega) (by omega)

/-- A loop has a round for each token, and one more, and so has the parser. -/
theorem Turns.loop (h : Turns start n step rest) (i : Nat) (b : β) :
    Follows start n i (loop step b) (Parser.room >>= fun room => rest room b) anything := by
  intro closed inside
  -- the loop counts all tokens, the parser those that are left
  refine h.rounds (start.all.length + 1) ((start.drop i).last :: (start.drop i).ahead) i b ?_ ?_
    closed inside
  · rw [Tokens.length_all]
    omega
  · rw [List.length_cons, Tokens.drop, List.length_drop]
    omega

/-- A loop and what comes behind it. -/
theorem Turns.loop_bind {f : γ → Guarded δ} {q : γ → Parser δ} {post : δ → Nat → Prop} {i : Nat}
    {b : β} (h : Turns start n step rest) (h' : ∀ c j, i ≤ j → Follows start n j (f c) (q c) post) :
    Follows start n i (Guarded.loop step b >>= f)
      (Parser.room >>= fun room => rest room b >>= q) post :=
  (h.loop i b).bind fun c j after _ => h' c j after

end Loops

/-! ## Expressions -/

section Expressions

variable {start : Tokens} {n : Nat} {go : {α : Type} → Routine α → Guarded α}
  {inner deeper operand : Parser Expr}

/-- Wherever it begins, the guarded parser does what the parser does, and no guard fails. -/
def Serves (start : Tokens) (n : Nat) (g : Guarded α) (p : Parser α) : Prop :=
  ∀ i, Follows start n i g p anything

theorem turns_chain {joiner? : Kind → Option (Expr → Expr → Expr)}
    (ends : joiner? (.mark .endOfInput) = none) {g : Guarded Expr}
    (each : Serves start n g operand) :
    Turns start n (chainRound joiner? g) (Parser.chainFrom joiner? operand) := by
  intro t room next i left later
  rw [chainRound, bind_assoc]
  refine follows_kind ?_
  cases joins : joiner? (start.drop i).kind with
  | none => exact follows_pure trivial
  | some join =>
    have some : (start.drop i).kind ≠ .mark .endOfInput := by
      intro last
      rw [last, ends] at joins
      cases joins
    simp only [bind_assoc, pure_bind, settle]
    refine follows_advance some ((each (i + 1)).bind fun right j after _ => ?_)
    exact later j _ after

theorem serves_chained {joiner? : Kind → Option (Expr → Expr → Expr)}
    (ends : joiner? (.mark .endOfInput) = none) {g : Guarded Expr}
    (each : Serves start n g operand) :
    Serves start n (chained joiner? g) (Parser.chain joiner? operand) := fun i =>
  (each i).bind fun left j _ _ => (turns_chain ends each).loop j left

theorem turns_list {g : Guarded α} {item : Parser α} {close : Mark} (each : Serves start n g item) :
    Turns start n (listRound g close) (Parser.listFrom item close) := by
  intro t room next i before later
  rw [listRound, bind_assoc]
  refine follows_check ?_
  split_ifs
  · exact follows_pure trivial
  · rw [bind_assoc]
    refine (each i).bind fun a j after _ => ?_
    rw [bind_assoc]
    refine follows_take (by decide) (fun _ => ?_) (follows_pure trivial)
    exact later (j + 1) _ (Nat.lt_succ_of_le after)

theorem turns_items (each : Serves start n (go .expression) inner) (close : Mark) :
    Turns start n (listRound (go .expression) close) (Parser.itemsFrom inner close) := by
  rw [show Parser.itemsFrom inner close = _ from funext₂ (Parser.itemsFrom_eq inner close)]
  exact turns_list each

theorem serves_expressionList (each : Serves start n (go .expression) inner) (close : Mark) :
    Serves start n (expressionList go close) (Parser.items inner close) :=
  fun i => (turns_items each close).loop i []

theorem serves_entry (each : Serves start n (go .expression) inner) :
    Serves start n (entry go) (Parser.entry inner) := by
  have key : ∀ i, Follows start n i key Parser.key anything := by
    intro i
    refine follows_kind ?_
    cases kind : (start.drop i).kind with
    | name s | string s =>
      exact follows_advance (f := fun _ => pure s) (q := fun _ => pure s) (by simp [kind])
        (follows_pure trivial)
    | _ => exact follows_fail _
  intro i
  refine (key i).bind fun k j _ _ => follows_consume (by decide) ?_
  exact (each _).bind fun value _ _ _ => follows_pure trivial

theorem turns_entries (each : Serves start n (go .expression) inner) :
    Turns start n (listRound (entry go) .rightBrace) (Parser.entriesFrom inner) := by
  rw [show Parser.entriesFrom inner = _ from funext₂ (Parser.entriesFrom_eq inner)]
  exact turns_list (serves_entry each)

theorem serves_primary (each : Serves start n (go .expression) inner)
    (lists : ∀ close, Serves start n (go (.expressionList close)) (Parser.items inner close)) :
    Serves start n (primary go) (Parser.primary inner) := by
  intro i
  refine follows_kind ?_
  have atom : ∀ (e : Expr), (start.drop i).kind ≠ .mark .endOfInput →
      Follows start n i (advance >>= fun _ => pure e) (Parser.skip >>= fun _ => pure e) anything :=
    fun e some => follows_advance some (follows_pure trivial)
  cases kind : (start.drop i).kind with
  | number | string | name => exact atom _ (by simp [kind])
  | fault => exact follows_fail _
  | mark m =>
    have some : m ≠ .endOfInput → (start.drop i).kind ≠ .mark .endOfInput := fun inner eq =>
      inner (Kind.mark.inj (kind.symm.trans eq))
    cases m
    case trueWord | falseWord | nullWord => exact atom _ (some (by decide))
    case leftParen =>
      refine follows_advance (some (by decide)) ((each _).bind fun e j _ _ => ?_)
      exact follows_consume (by decide) (follows_pure trivial)
    case leftBracket =>
      refine follows_advance (some (by decide)) ((lists _ _).bind fun es j _ _ => ?_)
      exact follows_consume (by decide) (follows_pure trivial)
    case leftBrace =>
      refine follows_advance (some (by decide)) ((turns_entries each).loop_bind fun es j _ => ?_)
      exact follows_consume (by decide) (follows_pure trivial)
    all_goals exact follows_fail _

/-- The parser looks at the front once, the guarded one asks for one mark after another. -/
theorem suffixesFrom_cons (t : Token) (room : List Token) (e : Expr) :
    Parser.suffixesFrom inner (t :: room) e = (do
      if ← Parser.take .leftParen then
        let args ← Parser.items inner .rightParen
        Parser.expect .rightParen .unclosedArguments
        Parser.suffixesFrom inner room (.call e args)
      else if ← Parser.take .dot then
        let property ← Parser.name .missingProperty
        Parser.suffixesFrom inner room (.property e property)
      else if ← Parser.take .leftBracket then
        let position ← inner
        Parser.expect .rightBracket .unclosedIndex
        Parser.suffixesFrom inner room (.index e position)
      else pure e) := by
  have pick : ∀ (a b c z : Parser Expr) (ts : Tokens),
      (Parser.take .leftParen >>= fun (seen : Bool) => if seen then a else
        Parser.take .dot >>= fun (seen : Bool) => if seen then b else
          Parser.take .leftBracket >>= fun (seen : Bool) => if seen then c else z) ts =
      if ts.kind.isMark .leftParen then a ts.tail else if ts.kind.isMark .dot then b ts.tail
        else if ts.kind.isMark .leftBracket then c ts.tail else z ts := by
    intro a b c z ts
    simp only [Parser.take_bind, Tokens.at?, if_true, Bool.false_eq_true, if_false]
  funext ts
  rw [pick, Parser.suffixesFrom, Parser.peek_bind]
  cases ts.kind with
  | mark m => cases m <;> rfl
  | _ => rfl

theorem turns_suffixes (each : Serves start n (go .expression) inner)
    (lists : ∀ close, Serves start n (go (.expressionList close)) (Parser.items inner close)) :
    Turns start n (suffixRound go) (Parser.suffixesFrom inner) := by
  intro t room next i e later
  rw [suffixRound, bind_assoc, suffixesFrom_cons]
  refine follows_take (by decide) (fun _ => ?_) ?_
  · simp only [if_true, bind_assoc, pure_bind, settle]
    refine (lists _ _).bind fun args j after _ => follows_consume (by decide) ?_
    exact later _ _ (by omega)
  simp only [Bool.false_eq_true, if_false, bind_assoc]
  refine follows_take (by decide) (fun _ => ?_) ?_
  · simp only [if_true, bind_assoc, pure_bind, settle]
    refine follows_identifier fun property => ?_
    exact later _ _ (by omega)
  simp only [Bool.false_eq_true, if_false, bind_assoc]
  refine follows_take (by decide) (fun _ => ?_) (follows_pure trivial)
  simp only [if_true, bind_assoc, pure_bind, settle]
  refine (each _).bind fun position j after _ => follows_consume (by decide) ?_
  exact later _ _ (by omega)

theorem serves_suffixed (operand : Serves start n (go .primary) (Parser.primary inner))
    (each : Serves start n (go .expression) inner)
    (lists : ∀ close, Serves start n (go (.expressionList close)) (Parser.items inner close)) :
    Serves start n (suffixed go) (Parser.suffixed inner) := fun i =>
  (operand i).bind fun e j _ _ => (turns_suffixes each lists).loop j e

/-- An operand with its exponent. -/
def raised (inner deeper : Parser Expr) : Parser Expr := do
  let base ← Parser.suffixed inner
  if ← Parser.take .power then return .binary .power base (← deeper)
  else return base

theorem serves_power (operand : Serves start n (go .call) (Parser.suffixed inner))
    (next : Serves start n (nested (go .unary)) deeper) :
    Serves start n (power go) (raised inner deeper) := fun i =>
  (operand i).bind fun base j _ _ => follows_take (by decide)
    (fun _ => (next _).bind fun exponent _ _ _ => follows_pure trivial) (follows_pure trivial)

theorem serves_unary (operand : Serves start n (go .power) (raised inner deeper))
    (next : Serves start n (nested (go .unary)) deeper) :
    Serves start n (unary go) (Parser.signedWith inner deeper) := by
  intro i
  refine follows_kind ?_
  cases signs : Parser.unary? (start.drop i).kind with
  | none => exact operand i
  | some op =>
    have some : (start.drop i).kind ≠ .mark .endOfInput := by
      intro last
      rw [last] at signs
      cases signs
    exact follows_advance some ((next _).bind fun e _ _ _ => follows_pure trivial)

/-! ## Levels -/

/-- One level deeper the parser does what it does there, as long as a level is left. -/
theorem serves_nested {g : Guarded α} {p : Parser α} (left : n < Parser.nestingLimit)
    (h : Serves start (n + 1) g p) : Serves start n (nested g) p := by
  intro i closed inside
  have run : nested g start.all ⟨i, n⟩ =
      if Parser.nestingLimit ≤ n then Guarded.fail (.tooDeep Parser.nestingLimit) start.all ⟨i, n⟩
      else g start.all ⟨i, n + 1⟩ >>= fun r =>
        leave start.all r.2 >>= fun s => .ok (r.1, s.2) := by
    show (ite _ _ _ : Guarded α) start.all ⟨i, n⟩ = _
    split_ifs <;> rfl
  rw [run, if_neg (Nat.not_le.2 left)]
  have result := h i closed inside
  generalize g start.all ⟨i, n + 1⟩ = x, p (start.drop i) = y at result
  cases result with
  | rejected problem line column => exact .rejected problem line column
  | read after inside' holds => exact .read after inside' holds

theorem serves_nested_limit {g : Guarded α} (full : n = Parser.nestingLimit) :
    Serves start n (nested g) (Parser.tooDeep : Parser α) := by
  intro i closed inside
  have run : nested g start.all ⟨i, n⟩ =
      Guarded.fail (.tooDeep Parser.nestingLimit) start.all ⟨i, n⟩ := by
    show (ite _ _ _ : Guarded α) start.all ⟨i, n⟩ = _
    rw [if_pos (Nat.le_of_eq full.symm)]
  rw [run]
  exact follows_fail _ closed inside

end Expressions

end Guarded

end SheetScript
