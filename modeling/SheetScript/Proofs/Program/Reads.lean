import SheetScript.Program.Parser
import SheetScript.Proofs.Program.Printable

/-!
# What parsers read

`Parser.Reads follow kinds ok p a` says that the parser `p` reads tokens of some kinds as `a` if
enough levels are left, and fails with "too deep" if they are not, whatever tokens stand behind, the
first of them apart. There is one rule for each thing that a parser does.

* `Yields` is about one reading, `Reads` about all readings of tokens of some kinds. Both go on with
  `bind`; `reads_peek` and its like look at the front.
* `reads_levels_one` and `reads_levels_two` are about operators: the parsers of operands with an
  operator of one family between them, from tight to loose.
* `reads_listFrom` is about items with commas between them. Those of an array, of a call and of a
  map are read alike (`itemsFrom_eq`, `entriesFrom_eq`).
-/

namespace SheetScript

open Token

/-- These tokens, then the others. -/
def Tokens.behind (ts : List Token) (rest : Tokens) : Tokens :=
  { rest with ahead := ts ++ rest.ahead }

namespace Parser

/-- The reading has failed because no level was left. -/
def TooDeep {α : Type} (r : Except ScriptError α) : Prop :=
  ∃ found line column, r = .error (.parse (.complaint (.tooDeep nestingLimit) found) line column)

/-- A result is a reading that leaves the tokens `rest`, if enough levels are left, and else it is a
failure because they are not. -/
def Yields {α : Type} (ok : Prop) (r : Except ScriptError (α × Tokens)) (a : α)
    (rest : Tokens) : Prop :=
  (ok → r = .ok (a, rest)) ∧ (¬ ok → TooDeep r)

/-- The kind at the front: the first of some kinds, or the one behind them. -/
def front (kinds : List Kind) (behind : Kind) : Kind := kinds.head?.getD behind

/-- The parser reads tokens of these kinds as `a` if enough levels are left, wherever the right kind
stands behind them. -/
def Reads {α : Type} (follow : Kind → Prop) (kinds : List Kind) (ok : Prop) (p : Parser α)
    (a : α) : Prop :=
  ∀ ⦃ts : List Token⦄ ⦃rest : Tokens⦄, ts.map Token.kind = kinds → follow rest.kind →
    Yields ok (p (.behind ts rest)) a rest

section Rules

variable {α β : Type} {follow follow' : Kind → Prop} {kinds kinds' : List Kind} {ok ok' : Prop}
variable {p : Parser α} {a : α} {b : β}

/-! ## Rules -/

theorem kind_behind {ts : List Token} {rest : Tokens} (eq : ts.map Token.kind = kinds) :
    (Tokens.behind ts rest).kind = front kinds rest.kind := by
  cases ts with
  | nil =>
    subst eq
    rfl
  | cons t ts =>
    subst eq
    rfl

theorem yields_ok (a : α) (rest : Tokens) : Yields True (.ok (a, rest)) a rest :=
  ⟨fun _ => rfl, fun no => absurd trivial no⟩

/-- One thing after another: both need their levels. -/
theorem Yields.bind {f : α → Parser β} {start between rest : Tokens}
    (h : Yields ok (p start) a between) (h' : Yields ok' (f a between) b rest) :
    Yields (ok ∧ ok') ((p >>= f) start) b rest := by
  have run : (p >>= f) start = (p start >>= fun r => f r.1 r.2) := rfl
  rw [run]
  by_cases enough : ok
  · rw [h.1 enough]
    exact ⟨fun both => h'.1 both.2, fun no => h'.2 fun enough' => no ⟨enough, enough'⟩⟩
  · obtain ⟨found, line, column, deep⟩ := h.2 enough
    rw [deep]
    exact ⟨fun both => absurd both.1 enough, fun _ => ⟨found, line, column, rfl⟩⟩

/-- After a thing, something that takes no level. -/
theorem Yields.map {f : α → Parser β} {start between rest : Tokens}
    (h : Yields ok (p start) a between) (h' : Yields True (f a between) b rest) :
    Yields ok ((p >>= f) start) b rest := by
  simpa only [and_true] using h.bind h'

theorem Reads.mono (h : Reads follow kinds ok p a) (weaker : ∀ kind, follow' kind → follow kind) :
    Reads follow' kinds ok p a :=
  fun _ _ eq right => h eq (weaker _ right)

theorem Reads.congr (h : Reads follow kinds ok p a) (same : ok ↔ ok') :
    Reads follow kinds ok' p a := propext same ▸ h

theorem reads_pure (a : α) : Reads follow [] True (pure a) a := by
  intro ts rest eq _
  obtain rfl := List.map_eq_nil_iff.1 eq
  exact yields_ok a rest

theorem reads_tooDeep (kinds : List Kind) (a : α) : Reads follow kinds False tooDeep a :=
  fun _ _ _ _ => ⟨False.elim, fun _ => ⟨_, _, _, rfl⟩⟩

theorem Reads.bind {f : α → Parser β} (h : Reads follow kinds ok p a)
    (h' : Reads follow' kinds' ok' (f a) b)
    (meets : ∀ kind, follow' kind → follow (front kinds' kind)) :
    Reads follow' (kinds ++ kinds') (ok ∧ ok') (p >>= f) b := by
  intro ts rest eq right
  obtain ⟨ts, ts', rfl, here, later⟩ := List.map_eq_append_iff.1 eq
  have between : follow (Tokens.behind ts' rest).kind := kind_behind later ▸ meets _ right
  have split : Tokens.behind (ts ++ ts') rest = .behind ts (.behind ts' rest) := by
    simp only [Tokens.behind, List.append_assoc]
  rw [split]
  exact (h here between).bind (h' later right)

/-- After a thing, something that takes no token. -/
theorem Reads.map {f : α → Parser β} (h : Reads follow kinds ok p a)
    (h' : Reads follow [] True (f a) b) : Reads follow kinds ok (p >>= f) b := by
  simpa using h.bind h' fun _ right => right

theorem peek_bind (f : Kind → Parser β) (ts : Tokens) : (peek >>= f) ts = f ts.kind ts := rfl

theorem sees_bind (m : Mark) (f : Bool → Parser β) (ts : Tokens) :
    (sees m >>= f) ts = f (ts.kind.isMark m) ts := rfl

theorem take_bind (m : Mark) (f : Bool → Parser β) (ts : Tokens) :
    (take m >>= f) ts = if ts.at? m then f true ts.tail else f false ts := by
  have run : (take m >>= f) ts =
    (if ts.at? m then .ok (true, ts.tail) else .ok (false, ts)) >>= fun r => f r.1 r.2 := rfl
  rw [run]
  split_ifs <;> rfl

theorem expect_bind (m : Mark) (c : Complaint) (f : Unit → Parser β) (ts : Tokens) :
    (expect m c >>= f) ts = if ts.at? m then f () ts.tail else (fail c : Parser β) ts := by
  rw [expect, bind_assoc, take_bind]
  cases ts.at? m <;> rfl

theorem reads_peek {f : Kind → Parser β} {k : Kind} (h : Reads follow (k :: kinds) ok (f k) b) :
    Reads follow (k :: kinds) ok (peek >>= f) b := by
  intro ts rest eq right
  rw [peek_bind, kind_behind eq]
  exact h eq right

/-- Nothing is taken: what is at the front is behind. -/
theorem reads_peek_nil {f : Kind → Parser β}
    (h : ∀ kind, follow kind → Reads follow [] ok (f kind) b) :
    Reads follow [] ok (peek >>= f) b := by
  intro ts rest eq right
  rw [peek_bind, kind_behind eq]
  exact h _ right eq right

theorem reads_skip {f : Unit → Parser β} {k : Kind} (h : Reads follow kinds ok (f ()) b) :
    Reads follow (k :: kinds) ok (skip >>= f) b := by
  intro ts rest eq right
  obtain ⟨t, ts, rfl, -, later⟩ := List.map_eq_cons_iff.1 eq
  exact h later right

theorem reads_sees {m : Mark} {f : Bool → Parser β} (seen : Bool)
    (sees_it : ∀ kind, follow kind → (front kinds kind).isMark m = seen)
    (h : Reads follow kinds ok (f seen) b) : Reads follow kinds ok (sees m >>= f) b := by
  intro ts rest eq right
  rw [sees_bind, kind_behind eq, sees_it _ right]
  exact h eq right

theorem isMark_self (m : Mark) : (Kind.mark m).isMark m = true := by
  simp [Kind.isMark]

/-- The mark stands at the front. -/
theorem reads_take {m : Mark} {f : Bool → Parser β} (h : Reads follow kinds ok (f true) b) :
    Reads follow (.mark m :: kinds) ok (take m >>= f) b := by
  intro ts rest eq right
  have seen : (Tokens.behind ts rest).at? m := by
    rw [Tokens.at?, kind_behind eq]
    exact isMark_self m
  rw [take_bind, if_pos seen]
  obtain ⟨t, ts, rfl, -, later⟩ := List.map_eq_cons_iff.1 eq
  exact h later right

/-- The mark does not stand at the front. -/
theorem reads_take_not {m : Mark} {f : Bool → Parser β}
    (no_mark : ∀ kind, follow kind → (front kinds kind).isMark m = false)
    (h : Reads follow kinds ok (f false) b) : Reads follow kinds ok (take m >>= f) b := by
  intro ts rest eq right
  have unseen : ¬ (Tokens.behind ts rest).at? m := by
    rw [Tokens.at?, kind_behind eq, no_mark _ right]
    exact Bool.false_ne_true
  rw [take_bind, if_neg unseen]
  exact h eq right

theorem reads_expect {m : Mark} {c : Complaint} {f : Unit → Parser β}
    (h : Reads follow kinds ok (f ()) b) :
    Reads follow (.mark m :: kinds) ok (expect m c >>= f) b := by
  have mark : Reads (fun _ => True) [.mark m] True (expect m c) () := reads_take (reads_pure ())
  exact (mark.bind h fun _ _ => trivial).congr (by rw [true_and])

theorem reads_name {s : String} {c : Complaint} {f : String → Parser β}
    (h : Reads follow kinds ok (f s) b) : Reads follow (.name s :: kinds) ok (name c >>= f) b := by
  have text : Reads (fun _ => True) [.name s] True (name c) s :=
    reads_peek (reads_skip (reads_pure s))
  exact (text.bind h fun _ _ => trivial).congr (by rw [true_and])

/-- A thing and the mark that closes it. -/
theorem reads_closed {m : Mark} {c : Complaint} {f : α → Parser β}
    (h : Reads follow' kinds ok p a) (meets : follow' (.mark m))
    (rest : Reads follow kinds' ok' (f a) b) :
    Reads follow (kinds ++ .mark m :: kinds') (ok ∧ ok')
      (p >>= fun a => expect m c >>= fun _ => f a) b :=
  h.bind (reads_expect rest) fun _ _ => meets

/-- A list or chain has room for every token that it reads. -/
theorem reads_room {f : List Token → Parser β}
    (h : ∀ room, kinds.length < room.length → Reads follow kinds ok (f room) b) :
    Reads follow kinds ok (room >>= f) b := by
  intro ts rest eq right
  refine h (rest.last :: (ts ++ rest.ahead)) ?_ eq right
  rw [← eq, List.length_map, List.length_cons, List.length_append]
  omega

/-! ## Operators -/

variable {joiner? : Kind → Option (Expr → Expr → Expr)} {operand : Parser Expr} {x y : Expr}

/-- A chain ends where no operator of its family follows. -/
theorem reads_chainFrom_stop (room : List Token) (x : Expr)
    (ends : ∀ kind, follow kind → joiner? kind = none) :
    Reads follow [] True (chainFrom joiner? operand room x) x := by
  cases room with
  | nil => exact reads_pure x
  | cons t room =>
    refine reads_peek_nil fun kind right => ?_
    rw [ends kind right]
    exact reads_pure x

/-- One operand. -/
theorem reads_chain_one (h : Reads follow' kinds ok operand x)
    (ends : ∀ kind, follow kind → follow' kind ∧ joiner? kind = none) :
    Reads follow kinds ok (chain joiner? operand) x :=
  (h.mono fun kind right => (ends kind right).1).map <| reads_room fun room _ =>
    reads_chainFrom_stop room x fun kind right => (ends kind right).2

/-- Two operands and the operator between them. -/
theorem reads_chain_two {k : Kind} {join : Expr → Expr → Expr}
    (h : Reads follow' kinds ok operand x) (h' : Reads follow' kinds' ok' operand y)
    (joins : joiner? k = some join) (meets : follow' k)
    (ends : ∀ kind, follow kind → follow' kind ∧ joiner? kind = none) :
    Reads follow (kinds ++ k :: kinds') (ok ∧ ok') (chain joiner? operand) (join x y) := by
  refine h.bind (reads_room fun room fits => ?_) fun kind _ => meets
  obtain ⟨t, room, rfl⟩ := List.exists_cons_of_length_pos (Nat.zero_lt_of_lt fits)
  refine reads_peek ?_
  rw [joins]
  exact reads_skip <| (h'.mono fun kind right => (ends kind right).1).map <|
    reads_chainFrom_stop room _ fun kind right => (ends kind right).2

/-- Operands joined by the operators of several families, from tight to loose. -/
def levels (joiners : List (Kind → Option (Expr → Expr → Expr))) (operand : Parser Expr) :
    Parser Expr := joiners.foldl (fun operand joiner? => chain joiner? operand) operand

variable {inner outer : List (Kind → Option (Expr → Expr → Expr))}

theorem levels_cons (operand : Parser Expr) :
    levels (joiner? :: outer) operand = levels outer (chain joiner? operand) := rfl

theorem levels_append (operand : Parser Expr) :
    levels (inner ++ outer) operand = levels outer (levels inner operand) :=
  List.foldl_append

/-- One operand, whatever the families of operators. -/
theorem reads_levels_one (h : Reads follow' kinds ok operand x)
    (ends : ∀ kind, follow kind → follow' kind ∧ ∀ joiner? ∈ outer, joiner? kind = none) :
    Reads follow kinds ok (levels outer operand) x := by
  induction outer generalizing operand follow' with
  | nil => exact h.mono fun kind right => (ends kind right).1
  | cons joiner? outer ih =>
    have here : Reads (fun kind => follow' kind ∧ joiner? kind = none) kinds ok
        (chain joiner? operand) x := reads_chain_one h fun _ right => right
    refine ih here fun kind right => ?_
    obtain ⟨right, none_here⟩ := ends kind right
    obtain ⟨here, later⟩ := List.forall_mem_cons.1 none_here
    exact ⟨⟨right, here⟩, later⟩

/-- Two operands and an operator of one family between them. -/
theorem reads_levels_two {k : Kind} {join : Expr → Expr → Expr}
    (h : Reads follow' kinds ok operand x) (h' : Reads follow' kinds' ok' operand y)
    (joins : joiner? k = some join)
    (meets : follow' k ∧ ∀ tighter? ∈ inner, tighter? k = none)
    (ends : ∀ kind, follow kind →
      follow' kind ∧ ∀ other? ∈ inner ++ joiner? :: outer, other? kind = none) :
    Reads follow (kinds ++ k :: kinds') (ok ∧ ok') (levels (inner ++ joiner? :: outer) operand)
      (join x y) := by
  rw [levels_append, levels_cons]
  -- the operands of the family end where no tighter operator follows
  have tight : ∀ {kinds ok x}, Reads follow' kinds ok operand x →
      Reads (fun kind => follow' kind ∧ ∀ tighter? ∈ inner, tighter? kind = none) kinds ok
        (levels inner operand) x :=
    fun h => reads_levels_one h fun _ right => right
  have two : Reads (fun kind => (follow' kind ∧ ∀ tighter? ∈ inner, tighter? kind = none) ∧
      joiner? kind = none) (kinds ++ k :: kinds') (ok ∧ ok')
      (chain joiner? (levels inner operand)) (join x y) :=
    reads_chain_two (tight h) (tight h') joins meets fun _ right => right
  refine reads_levels_one two fun kind right => ?_
  obtain ⟨right, none_here⟩ := ends kind right
  obtain ⟨tighter, here⟩ := List.forall_mem_append.1 none_here
  obtain ⟨here, looser⟩ := List.forall_mem_cons.1 here
  exact ⟨⟨⟨right, tighter⟩, here⟩, looser⟩

/-! ## Lists -/

/-- Items with commas between them and perhaps one at the end, up to the closing mark, at most one
for each token of `room`; those before in reverse. -/
def listFrom (item : Parser α) (close : Mark) : List Token → List α → Parser (List α)
  | [], before => pure before.reverse
  | _ :: room, before => do
    if ← sees close then return before.reverse
    let a ← item
    if ← take .comma then listFrom item close room (a :: before)
    else return (a :: before).reverse

theorem itemsFrom_eq (item : Parser Expr) (close : Mark) (room : List Token) (before : List Expr) :
    itemsFrom item close room before = listFrom item close room before := by
  induction room generalizing before with
  | nil => rfl
  | cons t room ih => simp only [itemsFrom, listFrom, ih]

/-- An entry of a map. -/
def entry (value : Parser Expr) : Parser (String × Expr) := do
  let k ← key
  expect .colon .missingKeyColon
  let v ← value
  return (k, v)

theorem entriesFrom_eq (value : Parser Expr) (room : List Token) (before : List (String × Expr)) :
    entriesFrom value room before = listFrom (entry value) .rightBrace room before := by
  induction room generalizing before with
  | nil => rfl
  | cons t room ih => simp only [entriesFrom, listFrom, entry, ih, bind_assoc, pure_bind]

/-- Items with commas between them, up to the closing mark. -/
theorem reads_listFrom {item : Parser α} {close : Mark} {parts : List α} {kindsOf : α → List Kind}
    {okOf : α → Prop} (no_comma : close ≠ .comma)
    (each : ∀ a ∈ parts, Reads (fun kind => kind = .mark .comma ∨ kind = .mark close) (kindsOf a)
      (okOf a) item a)
    (starts : ∀ a ∈ parts, ∃ k ks, kindsOf a = k :: ks ∧ k.isMark close = false)
    (room : List Token) (fits : (Expr.listed (parts.map kindsOf)).length < room.length)
    (before : List α) :
    Reads (· = .mark close) (Expr.listed (parts.map kindsOf)) (∀ a ∈ parts, okOf a)
      (listFrom item close room before) (before.reverse ++ parts) := by
  induction parts generalizing room before with
  | nil =>
    obtain ⟨t, room, rfl⟩ := List.exists_cons_of_length_pos (Nat.zero_lt_of_lt fits)
    rw [List.append_nil]
    refine (reads_sees true (fun kind eq => ?_) (reads_pure before.reverse)).congr (by simp)
    subst eq
    exact isMark_self close
  | cons a parts ih =>
    obtain ⟨t, room, rfl⟩ := List.exists_cons_of_length_pos (Nat.zero_lt_of_lt fits)
    obtain ⟨here, later⟩ := List.forall_mem_cons.1 each
    obtain ⟨⟨k, ks, starts_here, no_close⟩, starts⟩ := List.forall_mem_cons.1 starts
    have no_close_here : ∀ rest kind, (front (kindsOf a ++ rest) kind).isMark close = false :=
      fun rest kind => by rwa [starts_here]
    cases parts with
    | nil =>
      have alone : Reads (· = .mark close) (kindsOf a) (okOf a)
          (listFrom item close (t :: room) before) (a :: before).reverse := by
        refine reads_sees false (fun kind _ => List.append_nil (kindsOf a) ▸ no_close_here [] kind)
          ((here.mono fun _ => Or.inr).map (reads_take_not (fun kind eq => ?_) (reads_pure _)))
        subst eq
        simpa [front, Kind.isMark] using no_comma
      rw [List.map_singleton, Expr.listed_singleton, ← List.reverse_cons]
      exact alone.congr List.forall_mem_singleton.symm
    | cons next parts =>
      rw [List.map_cons, List.map_cons, Expr.listed_cons_cons] at fits ⊢
      have fits_later : (Expr.listed ((next :: parts).map kindsOf)).length < room.length := by
        simp only [starts_here, List.length_append, List.length_cons, List.map_cons] at fits ⊢
        omega
      have whole : Reads (· = .mark close)
          (kindsOf a ++ ([.mark .comma] ++ Expr.listed ((next :: parts).map kindsOf)))
          (okOf a ∧ ∀ b ∈ next :: parts, okOf b) (listFrom item close (t :: room) before)
          ((a :: before).reverse ++ next :: parts) := by
        refine reads_sees false (fun kind _ => no_close_here _ kind)
          (here.bind (reads_take ?_) fun _ _ => Or.inl rfl)
        exact ih later starts room fits_later (a :: before)
      rw [List.reverse_cons, List.append_assoc] at whole
      exact whole.congr List.forall_mem_cons.symm

end Rules

end Parser

end SheetScript
