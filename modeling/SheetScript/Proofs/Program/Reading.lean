import SheetScript.Proofs.Program.Reads

/-!
# The tokens of an expression are read as the expression

`Expr.nesting` counts the levels that an expression takes in its text. The parser of expressions
reads the tokens of a printable expression as that expression, if it has more levels left than the
expression takes, and fails with "too deep" if it has not (`expressionAt_reads`).

* The induction is on the expression. It is about operands with their sign (`SignedAt`), and for all
  other expressions about the operand before its suffixes (`SuffixedAt`): the operand of a call is
  read by the same parser as the call, which goes on with the arguments.
* `inFamily_operator` and `inFamily_connective` say to which family of operators each one belongs.
-/

namespace SheetScript

open Token

namespace Expr

/-! ## Levels -/

mutual

/-- The levels that the text of an expression takes: what stands between brackets, the operand of a
sign and an exponent are each one level deeper. -/
def nesting : Expr → Nat
  | number _ | string _ | bool _ | null | .variable _ => 0
  | binary .power left right => max left.nesting (right.nesting + 1) + 1
  | binary _ left right | logical _ left right => max left.nesting right.nesting + 1
  | unary _ operand => operand.nesting + 1
  | call callee args => max callee.nesting (inside args)
  | property object _ => object.nesting
  | index object position => max object.nesting (position.nesting + 1)
  | array items => inside items
  | map entries => insideEntries entries

/-- The levels of expressions between brackets. -/
def inside : List Expr → Nat
  | [] => 0
  | e :: rest => max (e.nesting + 1) (inside rest)

/-- The levels of the entries of a map. -/
def insideEntries : List (String × Expr) → Nat
  | [] => 0
  | (_, value) :: rest => max (value.nesting + 1) (insideEntries rest)

end

theorem inside_le {es : List Expr} {depth : Nat} :
    inside es ≤ depth ↔ ∀ e ∈ es, e.nesting < depth := by
  induction es with
  | nil => simp [inside]
  | cons e es ih => rw [inside, Nat.max_le, ih, List.forall_mem_cons, Nat.succ_le_iff]

theorem insideEntries_le {entries : List (String × Expr)} {depth : Nat} :
    insideEntries entries ≤ depth ↔ ∀ entry ∈ entries, entry.2.nesting < depth := by
  induction entries with
  | nil => simp [insideEntries]
  | cons entry entries ih =>
    rw [insideEntries, Nat.max_le, ih, List.forall_mem_cons, Nat.succ_le_iff]

/-! ## The first token -/

/-- The marks that an operand without a sign starts with. -/
def starters : List Mark :=
  [.trueWord, .falseWord, .nullWord, .leftParen, .leftBracket, .leftBrace]

/-- An operand starts with this kind, one with a sign if that is allowed. -/
def Starts (signed : Bool) : Kind → Prop
  | .mark m => m ∈ starters ∨ signed ∧ m ∈ [Mark.minus, .notWord]
  | .fault _ => False
  | _ => True

theorem Printable.exists_start {e : Expr} (h : Printable e) :
    ∃ k ks, e.kinds = k :: ks ∧ Starts e.isUnary k := by
  have longer : ∀ {e e' : Expr} {ks : List Kind}, (∃ k ks, e.kinds = k :: ks ∧ Starts e.isUnary k) →
      e.isUnary = e'.isUnary → e'.kinds = e.kinds ++ ks →
      ∃ k ks, e'.kinds = k :: ks ∧ Starts e'.isUnary k := by
    rintro e e' more ⟨k, ks, eq, starts⟩ same eq'
    exact ⟨k, ks ++ more, by rw [eq', eq, List.cons_append], same ▸ starts⟩
  induction h with
  | bool value => cases value <;> exact ⟨_, _, rfl, Or.inl (by decide)⟩
  | number | string | «variable» => exact ⟨_, _, rfl, trivial⟩
  | null | binary | logical | array | map => exact ⟨_, _, rfl, Or.inl (by decide)⟩
  | @unary op => cases op <;> exact ⟨_, _, rfl, Or.inr ⟨rfl, by decide⟩⟩
  | call x receiver all ih => exact longer ih receiver rfl
  | property x receiver isName ih => exact longer ih receiver rfl
  | index x receiver i ih => exact longer ih receiver rfl

theorem isMark_of_starts {signed : Bool} {k : Kind} {m : Mark} (h : Starts signed k)
    (other : m ∉ starters ∧ m ∉ [Mark.minus, .notWord]) : k.isMark m = false := by
  cases k with
  | mark n =>
    have ne : n ≠ m := by
      rintro rfl
      exact h.elim other.1 fun sign => other.2 sign.2
    simpa [Kind.isMark] using ne
  | _ => rfl

theorem unary?_of_starts {k : Kind} (h : Starts false k) : Parser.unary? k = none := by
  have apart : ∀ m ∈ starters, Parser.unary? (.mark m) = none := by decide
  cases k with
  | mark m => exact apart m (h.resolve_right fun sign => Bool.false_ne_true sign.1)
  | _ => rfl

end Expr

namespace Parser

open SheetScript.Expr

/-! ## Families of operators -/

/-- The families of operators, from tight to loose. -/
def joiners : List (Kind → Option (Expr → Expr → Expr)) :=
  [join? product?, join? sum?, join? comparison?, connect? .andWord .and, connect? .orWord .or]

theorem disjunction_eq (signed : Parser Expr) : disjunction signed = levels joiners signed := rfl

/-- No call, property or index goes on. -/
def EndsSuffixes (kind : Kind) : Prop :=
  ∀ m ∈ [Mark.leftParen, .dot, .leftBracket], kind.isMark m = false

/-- Neither a suffix nor an exponent goes on. -/
def EndsOperand (kind : Kind) : Prop := EndsSuffixes kind ∧ kind.isMark .power = false

/-- The marks that end an expression. -/
def enders : List Mark := [.comma, .rightParen, .rightBracket, .rightBrace, .newline]

/-- No expression goes on. -/
def EndsExpression (kind : Kind) : Prop := ∃ m ∈ enders, kind = .mark m

theorem EndsExpression.ends {kind : Kind} (h : EndsExpression kind) :
    EndsOperand kind ∧ ∀ joiner? ∈ joiners, joiner? kind = none := by
  have apart : ∀ m ∈ enders, ((∀ n ∈ [Mark.leftParen, .dot, .leftBracket],
      (Kind.mark m).isMark n = false) ∧ (Kind.mark m).isMark .power = false) ∧
        ∀ joiner? ∈ joiners, (joiner? (.mark m)).isNone := by decide
  obtain ⟨m, mem, rfl⟩ := h
  obtain ⟨operand, family⟩ := apart m mem
  exact ⟨operand, fun joiner? here => Option.isNone_iff_eq_none.1 (family joiner? here)⟩

/-- A mark joins two operands in one of the families, and in no tighter one. -/
def InFamily (m : Mark) (join : Expr → Expr → Expr) : Prop :=
  EndsOperand (.mark m) ∧ ∃ inner joiner? outer, joiners = inner ++ joiner? :: outer ∧
    joiner? (.mark m) = some join ∧ ∀ tighter? ∈ inner, tighter? (.mark m) = none

theorem inFamily_operator {op : Operator} (no_power : op ≠ .power) :
    InFamily op.mark (.binary op) := by
  have ends : EndsOperand (.mark op.mark) := by
    cases op with
    | power => exact absurd rfl no_power
    | _ =>
      unfold EndsOperand EndsSuffixes
      decide
  refine ⟨ends, ?_⟩
  cases op with
  | power => exact absurd rfl no_power
  | multiply | divide | floorDivide | modulo => exact ⟨[], _, _, rfl, rfl, by simp⟩
  | add | subtract =>
    exact ⟨[_], _, _, rfl, rfl, by simp [join?, product?, Operator.mark]⟩
  | _ => exact ⟨[_, _], _, _, rfl, rfl, by simp [join?, product?, sum?, Operator.mark]⟩

theorem inFamily_connective (op : Connective) : InFamily op.mark (.logical op) := by
  refine ⟨by cases op <;> (unfold EndsOperand EndsSuffixes; decide), ?_⟩
  cases op with
  | and =>
    exact ⟨[_, _, _], _, _, rfl, rfl, by
      simp [join?, product?, sum?, comparison?, Connective.mark]⟩
  | or =>
    exact ⟨[_, _, _, _], _, _, rfl, rfl, by
      simp [join?, connect?, product?, sum?, comparison?, Connective.mark]⟩

/-! ## Parts -/

/-- Expressions at this depth are read where they end, if enough levels are left. -/
def ExpressionAt (depth : Nat) (e : Expr) : Prop :=
  Reads EndsExpression e.kinds (e.nesting < depth) (expressionAt depth) e

section Parts

variable {follow : Kind → Prop} {kinds : List Kind} {ok : Prop} {e : Expr} {inner : Parser Expr}

/-- What is read between parentheses. -/
theorem reads_group (h : Reads EndsExpression kinds ok inner e) :
    Reads follow ([.mark .leftParen] ++ (kinds ++ [.mark .rightParen])) ok (primary inner) e := by
  refine Reads.congr (reads_peek (reads_skip (reads_closed h ?_ (reads_pure e)))) ?_
  · exact ⟨.rightParen, by decide, rfl⟩
  · rw [and_true]

variable {depth : Nat}

theorem endsExpression_of_item {close : Mark} (ends : close ∈ enders) (kind : Kind)
    (h : kind = .mark .comma ∨ kind = .mark close) : EndsExpression kind := by
  rcases h with rfl | rfl
  · exact ⟨.comma, by decide, rfl⟩
  · exact ⟨close, ends, rfl⟩

/-- The items of an array or a call. -/
theorem reads_items {es : List Expr} {close : Mark} (ends : close ∈ enders)
    (no_comma : close ≠ .comma) (printable : ∀ e ∈ es, Printable e)
    (each : ∀ e ∈ es, ExpressionAt depth e) :
    Reads (· = .mark close) (listed (kindsAll es)) (inside es ≤ depth)
      (items (expressionAt depth) close) es := by
  have apart : ∀ close ∈ enders, close ∉ starters ∧ close ∉ [Mark.minus, .notWord] := by decide
  rw [kindsAll_eq_map]
  refine (reads_room fun room fits => ?_).congr inside_le.symm
  rw [itemsFrom_eq]
  refine reads_listFrom no_comma (fun e mem => (each e mem).mono (endsExpression_of_item ends))
    (fun e mem => ?_) room fits []
  obtain ⟨k, ks, eq, starts⟩ := (printable e mem).exists_start
  exact ⟨k, ks, eq, isMark_of_starts starts (apart close ends)⟩

/-- An entry of a map. -/
theorem reads_entry (key : String) {value : Expr} (h : ExpressionAt depth value) :
    Reads EndsExpression (kindsOfEntry (key, value)) (value.nesting < depth)
      (entry (expressionAt depth)) (key, value) := by
  have name : Reads (fun _ => True) [.name key] True Parser.key key :=
    reads_peek (reads_skip (reads_pure key))
  refine (name.bind (reads_expect (h.map ?_)) fun _ _ => trivial).congr (by rw [true_and])
  exact reads_pure (key, value)

/-- The entries of a map. -/
theorem reads_entries {entries : List (String × Expr)}
    (each : ∀ entry ∈ entries, ExpressionAt depth entry.2) (room : List Token)
    (fits : (listed (entryKinds entries)).length < room.length) :
    Reads (· = .mark .rightBrace) (listed (entryKinds entries)) (insideEntries entries ≤ depth)
      (entriesFrom (expressionAt depth) room []) entries := by
  rw [entryKinds_eq_map] at fits ⊢
  rw [entriesFrom_eq]
  refine Reads.congr ?_ insideEntries_le.symm
  exact reads_listFrom (by decide) (fun entry mem => (reads_entry entry.1 (each entry mem)).mono
    (endsExpression_of_item (by decide))) (fun entry mem => ⟨_, _, rfl, rfl⟩) room fits []

end Parts

/-! ## Expressions -/

/-- Operands with their sign or their exponent are read, if enough levels are left. -/
def SignedAt (depth : Nat) (e : Expr) : Prop :=
  Reads EndsOperand e.kinds (e.nesting ≤ depth) (signedAt depth) e

/-- An operand is read, and then its suffixes, with room for all of their tokens. -/
def SuffixedAt (depth : Nat) (e : Expr) : Prop :=
  ∀ ⦃follow : Kind → Prop⦄ ⦃kinds : List Kind⦄ ⦃ok : Prop⦄ ⦃whole : Expr⦄,
    (∀ room, kinds.length < room.length →
      Reads follow kinds ok (suffixesFrom (expressionAt depth) room e) whole) →
    Reads follow (e.kinds ++ kinds) (e.nesting ≤ depth ∧ ok) (suffixed (expressionAt depth)) whole

/-- The parser one level deeper. -/
def deeperAt : Nat → Parser Expr
  | 0 => tooDeep
  | depth + 1 => signedAt depth

theorem signedAt_eq (depth : Nat) :
    signedAt depth = signedWith (expressionAt depth) (deeperAt depth) := by
  cases depth <;> rfl

variable {depth : Nat} {e : Expr}

-- the levels that are left differ between the operands of a chain and the chain, so readings at all
-- depths are asked for
theorem reads_deeper (h : ∀ depth, SignedAt depth e) :
    Reads EndsOperand e.kinds (e.nesting < depth) (deeperAt depth) e := by
  cases depth with
  | zero => exact (reads_tooDeep e.kinds e).congr (by simp)
  | succ depth => exact (h depth).congr Nat.lt_succ_iff.symm

/-- An operand is an expression, which takes one level. -/
theorem reads_expressionAt {kinds : List Kind} {taken : Nat}
    (h : ∀ depth, Reads EndsOperand kinds (taken ≤ depth) (signedAt depth) e) :
    Reads EndsExpression kinds (taken < depth) (expressionAt depth) e := by
  cases depth with
  | zero => exact (reads_tooDeep kinds e).congr (by simp)
  | succ depth =>
    have one : Reads EndsExpression kinds (taken ≤ depth) (levels joiners (signedAt depth)) e :=
      reads_levels_one (h depth) fun _ ends => EndsExpression.ends ends
    exact one.congr Nat.lt_succ_iff.symm

/-- Two operands and an operator of a family between them. -/
theorem reads_operands {left right : Expr} {m : Mark} {join : Expr → Expr → Expr}
    (l : ∀ depth, SignedAt depth left) (r : ∀ depth, SignedAt depth right)
    (family : InFamily m join) :
    Reads EndsExpression (left.kinds ++ ([.mark m] ++ right.kinds))
      (max left.nesting right.nesting < depth) (expressionAt depth) (join left right) := by
  obtain ⟨meets, inner, joiner?, outer, eq, joins, tighter⟩ := family
  cases depth with
  | zero => exact (reads_tooDeep _ _).congr (by simp)
  | succ depth =>
    rw [expressionAt, disjunction_eq, eq]
    refine (reads_levels_two (l depth) (r depth) joins ⟨meets, tighter⟩ fun kind ends => ?_).congr
      (by omega)
    rw [← eq]
    exact EndsExpression.ends ends

/-- An operand by itself. -/
theorem suffixedAt_of_primary
    (h : Reads (fun _ => True) e.kinds (e.nesting ≤ depth) (primary (expressionAt depth)) e) :
    SuffixedAt depth e :=
  fun _ _ _ _ rest => h.bind (reads_room rest) fun _ _ => trivial

theorem reads_suffixesFrom_stop (room : List Token) (e : Expr) (inner : Parser Expr) :
    Reads EndsSuffixes [] True (suffixesFrom inner room e) e := by
  cases room with
  | nil => exact reads_pure e
  | cons t room =>
    refine reads_peek_nil fun kind ends => ?_
    have other : ∀ m ∈ [Mark.leftParen, .dot, .leftBracket], kind ≠ .mark m := by
      rintro m mem rfl
      exact Bool.false_ne_true ((ends m mem).symm.trans (isMark_self m))
    split
    · exact absurd rfl (other .leftParen (by decide))
    · exact absurd rfl (other .dot (by decide))
    · exact absurd rfl (other .leftBracket (by decide))
    · exact reads_pure e

theorem reads_suffixed (h : SuffixedAt depth e) :
    Reads EndsSuffixes e.kinds (e.nesting ≤ depth) (suffixed (expressionAt depth)) e := by
  have alone := h fun room _ => reads_suffixesFrom_stop room e (expressionAt depth)
  rw [List.append_nil] at alone
  exact alone.congr (by rw [and_true])

/-- No sign stands at the front. -/
theorem reads_signedWith {kinds : List Kind} {ok : Prop} {inner deeper : Parser Expr} {whole : Expr}
    (start : ∃ k ks, kinds = k :: ks ∧ Starts false k)
    (h : Reads EndsOperand kinds ok (suffixed inner >>= fun base => take .power >>= fun raised =>
      if raised then deeper >>= fun exponent => pure (.binary .power base exponent) else pure base)
      whole) : Reads EndsOperand kinds ok (signedWith inner deeper) whole := by
  obtain ⟨k, ks, rfl, starts⟩ := start
  refine reads_peek ?_
  rw [unary?_of_starts starts]
  exact h

/-- An operand without a sign. -/
theorem signedAt_of_suffixedAt (h : SuffixedAt depth e) (printable : Printable e)
    (no_sign : e.isUnary = false) : SignedAt depth e := by
  have start := printable.exists_start
  rw [no_sign] at start
  rw [SignedAt, signedAt_eq]
  refine reads_signedWith start (((reads_suffixed h).mono fun _ ends => ends.1).map ?_)
  exact reads_take_not (fun _ ends => ends.2) (reads_pure e)

/-- An operand with its exponent. -/
theorem reads_power {exponent : Expr} (h : SuffixedAt depth e) (printable : Printable e)
    (no_sign : e.isUnary = false) (r : ∀ depth, SignedAt depth exponent) :
    Reads EndsOperand (e.kinds ++ ([.mark .power] ++ exponent.kinds))
      (max e.nesting (exponent.nesting + 1) ≤ depth) (signedAt depth)
      (.binary .power e exponent) := by
  obtain ⟨k, ks, eq, starts⟩ := printable.exists_start
  rw [no_sign] at starts
  rw [signedAt_eq]
  refine (reads_signedWith ⟨k, _, by rw [eq]; rfl, starts⟩ ((reads_suffixed h).bind
    (reads_take ((reads_deeper r).map (reads_pure _))) fun _ _ => ?_)).congr (by omega)
  show ∀ m ∈ [Mark.leftParen, .dot, .leftBracket], (Kind.mark .power).isMark m = false
  decide

/-- A sign and its operand. -/
theorem signedAt_sign (op : Unary) (h : ∀ depth, SignedAt depth e) :
    SignedAt depth (.unary op e) := by
  have sign : unary? (.mark op.mark) = some op := by cases op <;> rfl
  rw [SignedAt, signedAt_eq]
  have operand : Reads EndsOperand e.kinds (e.nesting < depth)
      (deeperAt depth >>= fun x => pure (Expr.unary op x)) (Expr.unary op e) :=
    (reads_deeper h).map (reads_pure _)
  refine (reads_peek ?_).congr Nat.succ_le_iff.symm
  rw [sign]
  exact reads_skip operand

/-! ## Suffixes -/

/-- A suffix goes on with an operand, and leaves room for all tokens behind it. -/
theorem suffixedAt_of_suffix {e' : Expr} {ks : List Kind} {ok' : Prop} (h : SuffixedAt depth e)
    (text : e'.kinds = e.kinds ++ ks) (some : ks ≠ [])
    (levels : e'.nesting ≤ depth ↔ e.nesting ≤ depth ∧ ok')
    (suffix : ∀ ⦃follow kinds ok whole⦄ (t : Token) (room : List Token),
      Reads follow kinds ok (suffixesFrom (expressionAt depth) room e') whole →
      Reads follow (ks ++ kinds) (ok' ∧ ok) (suffixesFrom (expressionAt depth) (t :: room) e)
        whole) :
    SuffixedAt depth e' := by
  intro follow kinds ok whole rest
  have both : Reads follow (e.kinds ++ (ks ++ kinds)) (e.nesting ≤ depth ∧ ok' ∧ ok)
      (suffixed (expressionAt depth)) whole := by
    refine h fun room fits => ?_
    obtain ⟨t, room, rfl⟩ := List.exists_cons_of_length_pos (Nat.zero_lt_of_lt fits)
    have length_pos := List.length_pos_iff.2 some
    rw [List.length_append, List.length_cons] at fits
    exact suffix t room (rest room (by omega))
  rw [text, List.append_assoc]
  exact both.congr (by rw [levels, and_assoc])

/-- A call of an operand. -/
theorem suffixedAt_call {args : List Expr} (h : SuffixedAt depth e)
    (printable : ∀ arg ∈ args, Printable arg) (each : ∀ arg ∈ args, ExpressionAt depth arg) :
    SuffixedAt depth (.call e args) := by
  refine suffixedAt_of_suffix h rfl (List.cons_ne_nil _ _) Nat.max_le
    fun follow kinds ok whole t room rest => ?_
  have arguments : Reads (· = .mark .rightParen) (listed (kindsAll args)) (inside args ≤ depth)
      (items (expressionAt depth) .rightParen) args :=
    reads_items (by decide) (by decide) printable each
  rw [List.append_assoc, List.append_assoc]
  exact reads_peek (reads_skip (reads_closed arguments rfl rest))

/-- A property of an operand. -/
theorem suffixedAt_property (h : SuffixedAt depth e) (name : String) :
    SuffixedAt depth (.property e name) := by
  refine suffixedAt_of_suffix h rfl (List.cons_ne_nil _ _) (by rw [Expr.nesting, and_true])
    fun follow kinds ok whole t room rest => ?_
  exact (reads_peek (reads_skip (reads_name rest))).congr (by rw [true_and])

/-- An index of an operand. -/
theorem suffixedAt_index {position : Expr} (h : SuffixedAt depth e)
    (i : ExpressionAt depth position) : SuffixedAt depth (.index e position) := by
  refine suffixedAt_of_suffix h rfl (List.cons_ne_nil _ _) Nat.max_le
    fun follow kinds ok whole t room rest => ?_
  have inside : Reads EndsExpression position.kinds (position.nesting < depth)
      (expressionAt depth) position := i
  rw [List.append_assoc, List.append_assoc]
  exact reads_peek (reads_skip (reads_closed inside ⟨.rightBracket, by decide, rfl⟩ rest))

/-! ## Every expression -/

/-- An array. -/
theorem suffixedAt_array {es : List Expr} (printable : ∀ e ∈ es, Printable e)
    (each : ∀ e ∈ es, ExpressionAt depth e) : SuffixedAt depth (.array es) := by
  have parts : Reads (· = .mark .rightBracket) (listed (kindsAll es)) (inside es ≤ depth)
      (items (expressionAt depth) .rightBracket) es :=
    reads_items (by decide) (by decide) printable each
  refine suffixedAt_of_primary ?_
  refine Reads.congr (reads_peek (reads_skip (reads_closed parts rfl (reads_pure _)))) ?_
  rw [and_true, Expr.nesting]

/-- A map. -/
theorem suffixedAt_map {entries : List (String × Expr)}
    (each : ∀ entry ∈ entries, ExpressionAt depth entry.2) :
    SuffixedAt depth (.map entries) := by
  refine suffixedAt_of_primary (reads_peek (reads_skip (reads_room fun room fits => ?_)))
  have shorter : (listed (entryKinds entries)).length < room.length :=
    Nat.lt_of_le_of_lt (List.sublist_append_left _ [Kind.mark .rightBrace]).length_le fits
  refine Reads.congr (reads_closed (reads_entries each room shorter) rfl (reads_pure _)) ?_
  rw [and_true, Expr.nesting]

/-- An operator of two operands. -/
theorem suffixedAt_binary {op : Operator} {left right : Expr} (l : ∀ depth, SignedAt depth left)
    (r : ∀ depth, SignedAt depth right)
    (base : op = .power → left.isUnary = false ∧ Printable left ∧ ∀ depth, SuffixedAt depth left) :
    SuffixedAt depth (.binary op left right) := by
  refine suffixedAt_of_primary ?_
  by_cases power : op = .power
  · subst power
    obtain ⟨no_sign, printable, left⟩ := base rfl
    exact reads_group (reads_expressionAt fun depth => reads_power (left depth) printable no_sign r)
  · have nesting : (Expr.binary op left right).nesting = max left.nesting right.nesting + 1 := by
      cases op <;> first | rfl | exact absurd rfl power
    rw [nesting]
    exact reads_group (reads_operands l r (inFamily_operator power))

/-- A connective of two operands. -/
theorem suffixedAt_logical {left right : Expr} (op : Connective) (l : ∀ depth, SignedAt depth left)
    (r : ∀ depth, SignedAt depth right) : SuffixedAt depth (.logical op left right) :=
  suffixedAt_of_primary (reads_group (reads_operands l r (inFamily_connective op)))

/-- A printable expression is read with its sign at every depth, and if it has none, its suffixes
may follow. -/
theorem reads_printable (h : Printable e) :
    (∀ depth, SignedAt depth e) ∧ (e.isUnary = false → ∀ depth, SuffixedAt depth e) := by
  have no_sign : ∀ {e : Expr}, Printable e → e.isUnary = false → (∀ depth, SuffixedAt depth e) →
      (∀ depth, SignedAt depth e) ∧ (e.isUnary = false → ∀ depth, SuffixedAt depth e) :=
    fun printable none read =>
      ⟨fun depth => signedAt_of_suffixedAt (read depth) printable none, fun _ => read⟩
  have atom : ∀ {e : Expr} {depth}, e.nesting = 0 →
      Reads (fun _ => True) e.kinds True (primary (expressionAt depth)) e → SuffixedAt depth e :=
    fun flat h => suffixedAt_of_primary (h.congr (by simp [flat]))
  induction h with
  | number unsigned =>
    exact no_sign (.number unsigned) rfl fun _ => atom rfl (reads_peek (reads_skip (reads_pure _)))
  | string verbatim =>
    exact no_sign (.string verbatim) rfl fun _ => atom rfl (reads_peek (reads_skip (reads_pure _)))
  | bool value =>
    refine no_sign (.bool value) rfl fun _ => atom rfl ?_
    cases value <;> exact reads_peek (reads_skip (reads_pure _))
  | null => exact no_sign .null rfl fun _ => atom rfl (reads_peek (reads_skip (reads_pure _)))
  | «variable» isName =>
    exact no_sign (.variable isName) rfl fun _ => atom rfl (reads_peek (reads_skip (reads_pure _)))
  | binary l r base ihl ihr =>
    exact no_sign (.binary l r base) rfl fun _ =>
      suffixedAt_binary ihl.1 ihr.1 fun power => ⟨base power, l, ihl.2 (base power)⟩
  | logical l r ihl ihr =>
    exact no_sign (.logical l r) rfl fun _ => suffixedAt_logical _ ihl.1 ihr.1
  | unary x ih => exact ⟨fun _ => signedAt_sign _ ih.1, fun none => by cases none⟩
  | call x receiver all ih ihs =>
    exact no_sign (.call x receiver all) rfl fun depth =>
      suffixedAt_call (ih.2 receiver depth) all fun arg mem => reads_expressionAt (ihs arg mem).1
  | property x receiver isName ih =>
    exact no_sign (.property x receiver isName) rfl fun depth =>
      suffixedAt_property (ih.2 receiver depth) _
  | index x receiver i ih ihi =>
    exact no_sign (.index x receiver i) rfl fun depth =>
      suffixedAt_index (ih.2 receiver depth) (reads_expressionAt ihi.1)
  | array all ihs =>
    exact no_sign (.array all) rfl fun _ =>
      suffixedAt_array all fun item mem => reads_expressionAt (ihs item mem).1
  | map keys values ihs =>
    exact no_sign (.map keys values) rfl fun _ =>
      suffixedAt_map fun entry mem => reads_expressionAt (ihs entry mem).1

/-- **The tokens of a printable expression** are read as the expression, if it takes less levels
than are left, and else the reading fails with "too deep". -/
theorem expressionAt_reads (h : Printable e) (depth : Nat) :
    Reads EndsExpression e.kinds (e.nesting < depth) (expressionAt depth) e :=
  reads_expressionAt (reads_printable h).1

end Parser

end SheetScript
