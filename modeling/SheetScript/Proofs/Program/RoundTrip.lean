import SheetScript.Proofs.Program.Reading

/-!
# Reading back the text of an expression

A program that is the text of a printable expression is read as that expression: the tokens of the
text are those of the expression, and the parser of programs reads them as one statement.

* `Printable.kinds_closed` proves of the tokens of an expression what holds of single tokens and is
  kept by appending and by parentheses. So none of them is a fault, and the search for the header of
  a function passes over them (`closed_passes`).
* `Program.ofSource_text` is the round trip, with the bound on the nesting.
-/

namespace SheetScript

open Token

namespace Expr

/-! ## All tokens of an expression -/

/-- A kind that neither opens nor closes parentheses, ends no line and is no fault. -/
def IsInner : Kind → Prop
  | .mark m => m ∉ [Mark.leftParen, .rightParen, .newline, .endOfInput]
  | .fault _ => False
  | _ => True

/-- A property of lists of kinds that is kept when tokens of an expression are put together. -/
structure Closed (P : List Kind → Prop) : Prop where
  nil : P []
  append : ∀ {ks ks'}, P ks → P ks' → P (ks ++ ks')
  inner : ∀ {k}, IsInner k → P [k]
  parens : ∀ {ks}, P ks → P ([.mark .leftParen] ++ (ks ++ [.mark .rightParen]))

theorem Closed.listed {P : List Kind → Prop} (closed : Closed P) {α : Type} {parts : List α}
    {kindsOf : α → List Kind} (each : ∀ part ∈ parts, P (kindsOf part)) :
    P (listed (parts.map kindsOf)) := by
  induction parts with
  | nil => exact closed.nil
  | cons part parts ih =>
    obtain ⟨here, later⟩ := List.forall_mem_cons.1 each
    cases parts with
    | nil =>
      rw [List.map_singleton, listed_singleton]
      exact here
    | cons next parts =>
      rw [List.map_cons, List.map_cons, listed_cons_cons]
      have comma : IsInner (.mark .comma) := show Mark.comma ∉ _ by decide
      exact closed.append here (closed.append (closed.inner comma) (ih later))

/-- A property that is closed holds of the tokens of an expression. -/
theorem Printable.kinds_closed {e : Expr} (h : Printable e) {P : List Kind → Prop}
    (closed : Closed P) : P e.kinds := by
  have mark : ∀ m, m ∉ [Mark.leftParen, .rightParen, .newline, .endOfInput] → P [.mark m] :=
    fun _ inner => closed.inner inner
  induction h with
  | number | string | «variable» => exact closed.inner trivial
  | bool value => cases value <;> exact mark _ (by decide)
  | null => exact mark _ (by decide)
  | @binary op _ _ l r base ihl ihr =>
    exact closed.parens (closed.append ihl (closed.append (mark _ (by cases op <;> decide)) ihr))
  | @logical op _ _ l r ihl ihr =>
    exact closed.parens (closed.append ihl (closed.append (mark _ (by cases op <;> decide)) ihr))
  | @unary op _ x ih => exact closed.append (mark _ (by cases op <;> decide)) ih
  | call x receiver all ih ihs =>
    rw [kinds, kindsAll_eq_map]
    exact closed.append ih (closed.parens (closed.listed ihs))
  | property x receiver isName ih =>
    exact closed.append ih (closed.append (mark _ (by decide)) (closed.inner trivial))
  | index x receiver i ih ihi =>
    exact closed.append ih
      (closed.append (mark _ (by decide)) (closed.append ihi (mark _ (by decide))))
  | array all ihs =>
    rw [kinds, kindsAll_eq_map]
    exact closed.append (mark _ (by decide))
      (closed.append (closed.listed ihs) (mark _ (by decide)))
  | map keys values ihs =>
    rw [kinds, entryKinds_eq_map]
    have entry : ∀ entry ∈ _, P (kindsOfEntry entry) := fun entry mem =>
      closed.append (closed.inner trivial) (closed.append (mark _ (by decide)) (ihs entry mem))
    exact closed.append (mark _ (by decide))
      (closed.append (closed.listed entry) (mark _ (by decide)))

/-- No token is a fault. -/
def Faultless (kinds : List Kind) : Prop := ∀ k ∈ kinds, ∀ f, k ≠ .fault f

theorem closed_faultless : Closed Faultless where
  nil := fun _ mem => absurd mem List.not_mem_nil
  append := fun left right => List.forall_mem_append.2 ⟨left, right⟩
  inner := by
    rintro k inner _ mem f rfl
    rw [← List.mem_singleton.1 mem] at inner
    exact inner
  parens := fun inside => by
    refine List.forall_mem_append.2 ⟨?_, List.forall_mem_append.2 ⟨inside, ?_⟩⟩ <;>
      simp

end Expr

namespace Parser

open SheetScript.Expr

/-! ## No header of a function -/

/-- The search for the header of a function passes over tokens of these kinds. -/
def Passes (kinds : List Kind) : Prop :=
  ∀ ⦃ts⦄, ts.map Token.kind = kinds → ∀ depth rest, 1 ≤ depth →
    headerEnds depth (ts ++ rest) = headerEnds depth rest

theorem headerEnds_open {t : Token} (h : t.kind = .mark .leftParen) (depth : Nat)
    (rest : List Token) : headerEnds depth (t :: rest) = headerEnds (depth + 1) rest := by
  rw [headerEnds, h]

theorem headerEnds_close {t : Token} (h : t.kind = .mark .rightParen) (depth : Nat)
    (rest : List Token) : headerEnds depth (t :: rest) =
      if depth ≤ 1 then rest.head?.any (·.kind.isMark .colon) else headerEnds (depth - 1) rest := by
  rw [headerEnds, h]

theorem headerEnds_inner {t : Token} (h : IsInner t.kind) (depth : Nat) (rest : List Token) :
    headerEnds depth (t :: rest) = headerEnds depth rest := by
  have other : ∀ m ∈ [Mark.leftParen, .rightParen, .newline, .endOfInput], t.kind ≠ .mark m := by
    intro m mem eq
    rw [eq] at h
    exact h mem
  rw [headerEnds]
  split
  · next eq => exact absurd eq (other .leftParen (by decide))
  · next eq => exact absurd eq (other .rightParen (by decide))
  · next eq => exact absurd eq (other .newline (by decide))
  · next eq => exact absurd eq (other .endOfInput (by decide))
  · rfl

theorem closed_passes : Closed Passes where
  nil := by
    rintro ts eq depth rest -
    rw [List.map_eq_nil_iff.1 eq, List.nil_append]
  append := by
    intro ks ks' left right ts eq depth rest some
    obtain ⟨ts, ts', rfl, here, later⟩ := List.map_eq_append_iff.1 eq
    rw [List.append_assoc, left here depth _ some, right later depth _ some]
  inner := by
    intro k inner ts eq depth rest _
    obtain ⟨t, rfl, rfl⟩ := List.map_eq_singleton_iff.1 eq
    exact headerEnds_inner inner depth rest
  parens := by
    intro ks inside ts eq depth rest some
    rw [List.singleton_append] at eq
    obtain ⟨o, ts, rfl, opens, eq⟩ := List.map_eq_cons_iff.1 eq
    obtain ⟨ts, cs, rfl, here, eq⟩ := List.map_eq_append_iff.1 eq
    obtain ⟨c, rfl, closes⟩ := List.map_eq_singleton_iff.1 eq
    rw [List.cons_append, headerEnds_open opens, List.append_assoc,
      inside here (depth + 1) _ (Nat.succ_pos depth), List.singleton_append,
      headerEnds_close closes, if_neg (by omega), Nat.add_sub_cancel]

/-- Whether a name, parameters in parentheses and a colon are ahead. -/
def header : List Token → Bool
  | t :: next :: rest =>
    match t.kind with
    | .name _ => next.kind.isMark .leftParen && headerEnds 1 rest
    | _ => false
  | _ => false

theorem atFunction_eq (ts : Tokens) : atFunction ts = .ok (header ts.ahead, ts) := rfl

theorem header_of_not_name {t : Token} (h : ∀ name, t.kind ≠ .name name) (rest : List Token) :
    header (t :: rest) = false := by
  cases rest with
  | nil => rfl
  | cons next rest =>
    rw [header]
    split
    · next eq => exact absurd eq (h _)
    · rfl

theorem header_of_name {t : Token} {name : String} (h : t.kind = .name name) (next : Token)
    (rest : List Token) :
    header (t :: next :: rest) = (next.kind.isMark .leftParen && headerEnds 1 rest) := by
  rw [header, h]

theorem header_eq {t : Token} {name : String} (h : t.kind = .name name) (rest : List Token) :
    header (t :: rest) = (rest.head?.any (·.kind.isMark .leftParen) && headerEnds 1 rest.tail) := by
  cases rest with
  | nil => rfl
  | cons next rest => exact header_of_name h next rest

/-- What is behind an expression does not make it the header of a function. -/
def NoBody (e : Expr) (rest : List Token) : Prop :=
  ∀ t ∈ rest.head?, t.kind.isMark .colon = false ∧
    ((∃ name, e = .variable name) → t.kind.isMark .leftParen = false)

theorem noBody_of_mark {t : Token} {m : Mark} (h : t.kind = .mark m)
    (other : m ≠ .colon ∧ m ≠ .leftParen) (e : Expr) (rest : List Token) :
    NoBody e (t :: rest) := by
  intro t' mem
  obtain rfl := Option.some.inj mem
  simp [h, Kind.isMark, other]

/-- Neither an expression nor a part of it is the header of a function. -/
theorem header_eq_false {e : Expr} (h : Printable e) {ts rest : List Token}
    (eq : ts.map Token.kind = e.kinds) (behind : NoBody e rest) : header (ts ++ rest) = false := by
  have other : ∀ {k ks} {ts : List Token}, ts.map Token.kind = k :: ks → (∀ name, k ≠ .name name) →
      ∀ rest, header (ts ++ rest) = false := by
    intro k ks ts eq no_name rest
    obtain ⟨t, ts, rfl, rfl, -⟩ := List.map_eq_cons_iff.1 eq
    exact header_of_not_name no_name _
  induction h generalizing ts rest with
  | «variable» isName =>
    obtain ⟨t, rfl, name⟩ := List.map_eq_singleton_iff.1 eq
    cases rest with
    | nil => rfl
    | cons next rest =>
      rw [List.singleton_append, header_of_name name, (behind next rfl).2 ⟨_, rfl⟩, Bool.false_and]
  | @call callee args x receiver all ih ihs =>
    obtain ⟨ts, suffix, rfl, here, later⟩ := List.map_eq_append_iff.1 eq
    rw [List.singleton_append] at later
    obtain ⟨o, suffix, rfl, opens, later⟩ := List.map_eq_cons_iff.1 later
    rw [List.append_assoc]
    by_cases named : ∃ name, callee = .variable name
    · obtain ⟨name, rfl⟩ := named
      obtain ⟨t, rfl, first⟩ := List.map_eq_singleton_iff.1 here
      obtain ⟨inner, cs, rfl, passed, later⟩ := List.map_eq_append_iff.1 later
      obtain ⟨c, rfl, closes⟩ := List.map_eq_singleton_iff.1 later
      have passes : Passes (listed (kindsAll args)) :=
        kindsAll_eq_map args ▸
          closed_passes.listed fun arg mem => (all arg mem).kinds_closed closed_passes
      have no_body : rest.head?.any (·.kind.isMark .colon) = false := by
        cases rest with
        | nil => rfl
        | cons t rest => exact (behind t rfl).1
      rw [List.singleton_append, List.cons_append, header_of_name first, List.append_assoc,
        passes passed 1 _ (Nat.le_refl 1), List.singleton_append, headerEnds_close closes,
        if_pos (Nat.le_refl 1), no_body, Bool.and_false]
    · refine ih here fun t mem => ⟨?_, fun name => absurd name named⟩
      obtain rfl := Option.some.inj mem
      rw [opens]
      rfl
  | property x receiver isName ih =>
    obtain ⟨ts, suffix, rfl, here, later⟩ := List.map_eq_append_iff.1 eq
    obtain ⟨dot, suffix, rfl, first, -⟩ := List.map_eq_cons_iff.1 later
    rw [List.append_assoc]
    exact ih here (noBody_of_mark first (by decide) _ _)
  | index x receiver i ih ihi =>
    obtain ⟨ts, suffix, rfl, here, later⟩ := List.map_eq_append_iff.1 eq
    obtain ⟨o, suffix, rfl, opens, -⟩ := List.map_eq_cons_iff.1 later
    rw [List.append_assoc]
    exact ih here (noBody_of_mark opens (by decide) _ _)
  | bool value => cases value <;> exact other eq (fun name eq => by cases eq) rest
  | _ => exact other eq (fun name eq => by cases eq) rest

/-! ## One statement -/

section Statement

variable {start rest : Tokens} {signed : Bool} {ok : Prop} {e : Expr} {expression : Parser Expr}

/-- An expression at the end of a line is a statement by itself. -/
theorem yields_plainStatement (starts : Starts signed start.kind)
    (read : Yields ok (expression start) e rest) (ends : rest.kind = .mark .newline) :
    Yields ok (plainStatement expression start) (.expression start.current.line e) rest := by
  have no_assignment : assignment? rest.kind = none := by rw [ends]; rfl
  have line_bind : ∀ f : Nat → Parser Stmt, (line >>= f) start = f start.current.line start :=
    fun _ => rfl
  unfold plainStatement
  rw [sees_bind, isMark_of_starts starts (by decide), if_neg Bool.false_ne_true]
  unfold simpleStatement
  rw [line_bind]
  refine read.map ?_
  rw [peek_bind, no_assignment]
  exact yields_ok _ rest

theorem kind_ne_of_starts {kind : Kind} {m : Mark} (h : Starts signed kind)
    (other : m ∉ starters ∧ m ∉ [Mark.minus, .notWord]) : kind ≠ .mark m := by
  rintro rfl
  exact Bool.false_ne_true ((isMark_of_starts h other).symm.trans (isMark_self m))

/-- A line with an expression is a statement. -/
theorem yields_statementWith (block : Parser (List Stmt)) (starts : Starts signed start.kind)
    (no_header : header start.ahead = false) (read : Yields ok (expression start) e rest)
    (ends : rest.kind = .mark .newline) :
    Yields ok (statementWith expression block start) (.expression start.current.line e)
      rest.tail := by
  have plain : ∀ f : Bool → Parser Stmt, (atFunction >>= f) start = f false start := by
    intro f
    have run : (atFunction >>= f) start = (atFunction start >>= fun r => f r.1 r.2) := rfl
    rw [run, atFunction_eq, no_header]
    rfl
  have ended : Yields True (endStatement rest) () rest.tail := by
    rw [endStatement, peek_bind, ends]
    exact yields_ok () rest.tail
  have stmt := yields_plainStatement starts read ends
  have no_if : start.kind ≠ .mark .ifWord := kind_ne_of_starts starts (by decide)
  have no_for : start.kind ≠ .mark .forWord := kind_ne_of_starts starts (by decide)
  unfold statementWith
  rw [peek_bind]
  -- the first token is not the word of a choice or a loop, and no function follows
  generalize start.kind = kind at no_if no_for
  split
  · exact absurd rfl no_if
  · exact absurd rfl no_for
  · rw [plain, if_neg Bool.false_ne_true]
    exact stmt.map (ended.map (yields_ok _ _))

end Statement

theorem skipSeparators_bind {α : Type} {start : Tokens}
    (no_newline : start.kind ≠ .mark .newline) (no_semicolon : start.kind ≠ .mark .semicolon)
    (f : Unit → Parser α) : (skipSeparators >>= f) start = f () start := by
  have run : (skipSeparators >>= f) start =
      (skipSeparatorsFrom (start.last :: start.ahead) start >>= fun r => f r.1 r.2) := rfl
  rw [run, skipSeparatorsFrom, peek_bind]
  generalize start.kind = kind at no_newline no_semicolon
  split
  · exact absurd rfl no_newline
  · exact absurd rfl no_semicolon
  · rfl

variable {e : Expr} {ts : List Token} {newline last : Token}

/-- The tokens of an expression and the end of the line are read as a statement. -/
theorem yields_statementAt (h : Printable e) (eq : ts.map Token.kind = e.kinds)
    (first : ∀ t ∈ ts, t.line = 1) (newline_kind : newline.kind = .mark .newline) (depth : Nat) :
    Yields (e.nesting < depth) (statementAt depth (.behind ts ⟨[newline], last⟩)) (.expression 1 e)
      ⟨[], last⟩ := by
  obtain ⟨block, statement⟩ : ∃ block, statementAt depth =
      statementWith (expressionAt depth) block := by
    cases depth <;> exact ⟨_, rfl⟩
  have no_header : header (ts ++ [newline]) = false :=
    header_eq_false h eq (noBody_of_mark newline_kind (by decide) e [])
  have read : Yields (e.nesting < depth) (expressionAt depth (.behind ts ⟨[newline], last⟩)) e
      ⟨[newline], last⟩ := expressionAt_reads h depth eq ⟨.newline, by decide, newline_kind⟩
  obtain ⟨k, ks, start, starts⟩ := h.exists_start
  obtain ⟨t, ts, rfl, rfl, -⟩ := List.map_eq_cons_iff.1 (eq.trans start)
  have line : t.line = 1 := first t (List.mem_cons_self ..)
  rw [statement, ← line]
  exact yields_statementWith block starts no_header read newline_kind

/-- A program of one statement. -/
theorem yields_statementsFrom {statement : Parser Stmt} {stmt : Stmt} {start rest : Tokens}
    {signed ok} (starts : Starts signed start.kind) (read : Yields ok (statement start) stmt rest)
    (ends : rest.kind = .mark .endOfInput) (t : Token) (room : List Token) :
    Yields ok (statementsFrom statement (t :: room) [] start) [stmt] rest := by
  have ended : ∀ room before, Yields True (statementsFrom statement room before rest)
      before.reverse rest := by
    intro room before
    unfold statementsFrom
    rw [skipSeparators_bind (by simp [ends]) (by simp [ends]), sees_bind, ends, isMark_self]
    exact yields_ok _ rest
  have other : ∀ m, m ∉ starters ∧ m ∉ [Mark.minus, .notWord] → start.kind.isMark m = false :=
    fun _ => isMark_of_starts starts
  unfold statementsFrom
  rw [skipSeparators_bind (kind_ne_of_starts starts (by decide))
    (kind_ne_of_starts starts (by decide)), sees_bind, other .endOfInput (by decide),
    if_neg Bool.false_ne_true, sees_bind, other .indent (by decide), if_neg Bool.false_ne_true]
  exact read.map (ended room [stmt])

/-- A program of one line with an expression. -/
theorem yields_program (h : Printable e) (eq : ts.map Token.kind = e.kinds)
    (first : ∀ t ∈ ts, t.line = 1) (newline_kind : newline.kind = .mark .newline)
    (last_kind : last.kind = .mark .endOfInput) :
    Yields (e.nesting < nestingLimit) (program (.behind ts ⟨[newline], last⟩))
      ⟨[.expression 1 e]⟩ ⟨[], last⟩ := by
  obtain ⟨k, ks, start, starts⟩ := h.exists_start
  have kind : (Tokens.behind ts ⟨[newline], last⟩).kind = k := by
    rw [kind_behind (eq.trans start)]
    rfl
  have read : Yields (e.nesting < nestingLimit)
      (statementAt nestingLimit (.behind ts ⟨[newline], last⟩)) (.expression 1 e) ⟨[], last⟩ :=
    yields_statementAt h eq first newline_kind nestingLimit
  have stmts := yields_statementsFrom (kind ▸ starts) read last_kind last (ts ++ [newline])
  have room_bind : ∀ f : List Token → Parser Program,
      (room >>= f) (.behind ts ⟨[newline], last⟩) =
        f (last :: (ts ++ [newline])) (.behind ts ⟨[newline], last⟩) := fun _ => rfl
  unfold program
  rw [room_bind]
  exact stmts.map (yields_ok _ _)

/-! ## The text of a program -/

theorem firstFault?_eq_none {tokens : List Token} (h : Faultless (tokens.map Token.kind)) :
    firstFault? tokens = none := by
  refine List.findSome?_eq_none_iff.2 fun t mem => ?_
  split
  · next f eq => exact absurd eq (h t.kind (List.mem_map_of_mem mem) f)
  · rfl

theorem ofList_eq_behind (ts : List Token) (newline : Token)
    (h : last.kind = .mark .endOfInput) :
    Tokens.ofList (ts ++ [newline, last]) = .behind ts ⟨[newline], last⟩ := by
  have closed : (ts ++ [newline, last]).getLast? = some last := by simp
  have before : (ts ++ [newline, last]).dropLast = ts ++ [newline] := by
    rw [List.dropLast_append_of_ne_nil (List.cons_ne_nil _ _)]
    rfl
  unfold Tokens.ofList
  rw [closed]
  dsimp only
  rw [h, isMark_self, if_pos rfl, before]
  rfl

end Parser

/-- **The text of a printable expression is read as the expression**: the program of that text is
the one statement on line 1, if the expression is nested less deep than the limit, and else the text
is rejected because it is not. The texts of the number literals have to be read back. -/
theorem Program.ofSource_text {e : Expr} (h : e.Printable)
    (back : ∀ x ∈ e.numbers, Number.ReadsBack x) :
    (e.nesting < Parser.nestingLimit →
      Program.ofSource? e.text = .ok ⟨[.expression 1 e]⟩) ∧
    (Parser.nestingLimit ≤ e.nesting → Parser.TooDeep (Program.ofSource? e.text)) := by
  obtain ⟨c, front, text, begins, -⟩ := h.startsText
  obtain ⟨ts, newline, last, tokens, eq, first, newline_kind, last_kind⟩ :=
    tokenize_of_spells (h.spells back) .last e.kinds_ne_nil ⟨c, front, text, begins⟩
  have no_fault : firstFault? (ts ++ [newline, last]) = none := by
    refine Parser.firstFault?_eq_none ?_
    rw [List.map_append, eq, List.map_cons, List.map_singleton, newline_kind, last_kind]
    exact Expr.closed_faultless.append (h.kinds_closed Expr.closed_faultless)
      (by simp [Expr.Faultless])
  have run : Program.ofSource? e.text =
      (Parser.program (.behind ts ⟨[newline], last⟩)).map Prod.fst := by
    rw [Program.ofSource?, tokens, Program.ofTokens?, no_fault,
      Parser.ofList_eq_behind ts newline last_kind]
    rfl
  have read := Parser.yields_program h eq first newline_kind last_kind
  rw [run]
  refine ⟨fun enough => ?_, fun deep => ?_⟩
  · rw [read.1 enough]
    rfl
  · obtain ⟨found, line, column, failed⟩ := read.2 (Nat.not_lt.2 deep)
    exact ⟨found, line, column, by rw [failed]; rfl⟩

/-- A call, an index and an exponent with a sign are read back; sixty-four signs are too deep. -/
theorem Program.ofSource_text_power :
    Program.ofSource? "(f(1.5, \"a b\")[x.y] ** -[not true])" =
      .ok ⟨[.expression 1 (.binary .power
        (.index (.call (.variable "f") [.number 1.5, .string "a b"])
          (.property (.variable "x") "y"))
        (.unary .negate (.array [.unary .not (.bool true)])))]⟩ ∧
    Parser.TooDeep (Program.ofSource? (Nat.repeat (.unary .not) 64 Expr.null).text) := by
  have args : ∀ arg ∈ [Expr.number 1.5, .string "a b"], arg.Printable := by
    simp only [List.forall_mem_cons]
    exact ⟨.number ⟨3 * 2 ^ 51, -52, by decide⟩,
      .string (List.all_iff_forall_prop.1 (by decide)), fun _ mem => absurd mem List.not_mem_nil⟩
  have base : (Expr.index (.call (.variable "f") [.number 1.5, .string "a b"])
      (.property (.variable "x") "y")).Printable :=
    .index (.call (.variable (by decide)) rfl args) rfl
      (.property (.variable (by decide)) rfl (by decide))
  have exponent : (Expr.unary .negate (.array [.unary .not (.bool true)])).Printable :=
    .unary (.array (List.forall_mem_singleton.2 (.unary (.bool true))))
  have signs : ∀ n, (Nat.repeat (.unary .not) n Expr.null).Printable := fun n => by
    induction n with
    | zero => exact .null
    | succ n ih => exact .unary ih
  have literals : ∀ x ∈ [(1.5 : Float)], Number.ReadsBack x :=
    List.forall_mem_singleton.2 (by unfold Number.ReadsBack; decide +kernel)
  have whole : (Expr.binary .power _ _).Printable := .binary base exponent fun _ => rfl
  have read := Program.ofSource_text whole literals
  have deep := Program.ofSource_text (signs 64) fun x mem => absurd mem List.not_mem_nil
  refine ⟨Eq.trans (congrArg Program.ofSource? ?_) (read.1 (by decide)), deep.2 (by decide)⟩
  decide +kernel

end SheetScript
