import SheetScript.Proofs.Program.Accepts

/-!
# Brackets in simple statements

The tokens of an expression have each bracket closed by one of its kind, and commas and colons stand
only between brackets. So it shows where the expression ends: neither a comma nor a closing bracket
stands behind a front of it that is an expression itself.

* `Balanced` says this of lists of kinds, and `Phrase.balanced_plain` proves it of the grammar.
* `header_eq_false_of_balanced`: a simple statement is no header of a function.
* `height` counts the brackets that are open. `Balanced.not_listed` compares two fronts of one list
  with it.
-/

namespace SheetScript

open Token SheetScript.Parser

/-- A kind that may stand in a simple statement outside of all brackets, and is none itself. -/
def isBare : Kind → Bool
  | .mark m => !(m.opens || m.closes || m.isLayout || m ∈ [Mark.semicolon, .comma, .colon, .ifWord,
      .elseWord, .forWord, .inWord])
  | .fault _ => false
  | _ => true

/-- The closing bracket of an opening one. -/
inductive Brackets : Mark → Mark → Prop
  | parens : Brackets .leftParen .rightParen
  | brackets : Brackets .leftBracket .rightBracket
  | braces : Brackets .leftBrace .rightBrace

/-- Each bracket is closed by one of its kind, and commas and colons stand between brackets, where
`inside` says that all of it does. -/
inductive Balanced : Bool → List Kind → Prop
  | nil {inside : Bool} : Balanced inside []
  | bare {inside : Bool} {k : Kind} {ks : List Kind} (h : isBare k = true)
      (rest : Balanced inside ks) : Balanced inside (k :: ks)
  | inner {m : Mark} {ks : List Kind} (h : m = .comma ∨ m = .colon) (rest : Balanced true ks) :
      Balanced true (.mark m :: ks)
  | bracket {inside : Bool} {o c : Mark} {ks ks' : List Kind} (pair : Brackets o c)
      (h : Balanced true ks) (rest : Balanced inside ks') :
      Balanced inside (.mark o :: (ks ++ .mark c :: ks'))

namespace Balanced

variable {inside : Bool} {k : Kind} {ks ks' : List Kind}

theorem append (h : Balanced inside ks) (h' : Balanced inside ks') :
    Balanced inside (ks ++ ks') := by
  induction h with
  | nil => exact h'
  | bare bare _ ih => exact .bare bare (ih h')
  | inner mark _ ih => exact .inner mark (ih h')
  | bracket pair inner _ _ ih =>
    rw [List.cons_append, List.append_assoc]
    exact .bracket pair inner (ih h')

/-- What the first token is. -/
theorem cons_cases (h : Balanced inside (k :: ks)) :
    (isBare k = true ∧ Balanced inside ks) ∨
      (inside = true ∧ (k = .mark .comma ∨ k = .mark .colon)) ∨
        ∃ o c inner outer, k = .mark o ∧ Brackets o c ∧ ks = inner ++ .mark c :: outer ∧
          Balanced true inner ∧ Balanced inside outer := by
  cases h with
  | bare bare rest => exact .inl ⟨bare, rest⟩
  | inner mark _ => exact .inr (.inl ⟨rfl, mark.imp (congrArg _) (congrArg _)⟩)
  | bracket pair inner outer => exact .inr (.inr ⟨_, _, _, _, rfl, pair, rfl, inner, outer⟩)

/-- What may stand outside of all brackets may stand between them. -/
theorem within (h : Balanced inside ks) : Balanced true ks := by
  induction h with
  | nil => exact .nil
  | bare bare _ ih => exact .bare bare ih
  | inner mark rest _ => exact .inner mark rest
  | bracket pair inner _ _ ih => exact .bracket pair inner ih

/-- No token ends a statement or is a fault. -/
theorem kind_ne (h : Balanced inside ks) : ∀ k ∈ ks,
    (∀ m ∈ [Mark.ifWord, .forWord, .semicolon, .newline, .indent, .dedent, .endOfInput],
      k ≠ .mark m) ∧ ∀ f, k ≠ .fault f := by
  induction h with
  | nil => exact List.forall_mem_nil _
  | bare bare _ ih =>
    refine List.forall_mem_cons.2 ⟨⟨?_, ?_⟩, ih⟩
    · rintro m mem rfl
      revert m
      decide
    · rintro f rfl
      cases bare
  | inner mark _ ih =>
    refine List.forall_mem_cons.2 ⟨⟨?_, nofun⟩, ih⟩
    obtain rfl | rfl := mark <;> simp
  | bracket pair _ _ ihs ih =>
    refine List.forall_mem_cons.2 ⟨⟨?_, nofun⟩, List.forall_mem_append.2 ⟨ihs,
      List.forall_mem_cons.2 ⟨⟨?_, nofun⟩, ih⟩⟩⟩ <;> cases pair <;> simp

end Balanced

/-! ## The grammar -/

namespace Phrase

variable {α : Type} {inner deeper operand expression : Phrase Expr}

/-- The tokens of each thing are balanced. -/
def IsBalanced (inside : Bool) (phrase : Phrase α) : Prop :=
  ∀ ⦃ts a⦄, phrase ts a → Balanced inside (ts.map Token.kind)

theorem isBare_of_join? {operator? : Mark → Option Operator}
    (bare : ∀ m op, operator? m = some op → isBare (.mark m) = true) {k : Kind}
    {join : Expr → Expr → Expr} (joins : join? operator? k = some join) : isBare k = true := by
  cases k with
  | mark m =>
    obtain ⟨op, eq, -⟩ := Option.map_eq_some_iff.1 joins
    exact bare m op eq
  | _ => cases joins

theorem isBare_of_connect? {m : Mark} {op : Connective} (bare : isBare (.mark m) = true) {k : Kind}
    {join : Expr → Expr → Expr} (joins : connect? m op k = some join) : isBare k = true := by
  cases k with
  | mark n =>
    have same : n = m := by
      by_contra other
      simp [connect?, other] at joins
    exact same ▸ bare
  | _ => cases joins

theorem IsBalanced.chain {joiner? : Kind → Option (Expr → Expr → Expr)}
    (bare : ∀ ⦃k join⦄, joiner? k = some join → isBare k = true) (h : IsBalanced false operand) :
    IsBalanced false (Chain joiner? operand) := by
  intro ts e chain
  induction chain with
  | operand x => exact h x
  | join _ joins r ih =>
    rw [List.map_append, List.map_cons]
    exact ih.append (.bare (bare joins) (h r))

theorem IsBalanced.disjunction (h : IsBalanced false operand) :
    IsBalanced false (Disjunction operand) := by
  have connective : ∀ m op, m = Mark.andWord ∨ m = .orWord →
      ∀ ⦃k join⦄, connect? m op k = some join → isBare k = true := by
    rintro m op (rfl | rfl) k join joins <;> exact isBare_of_connect? rfl joins
  have family : ∀ operator? ∈ [comparison?, sum?, product?],
      ∀ ⦃k join⦄, join? operator? k = some join → isBare k = true := by
    intro operator? mem k join
    refine isBare_of_join? fun m op eq => ?_
    simp only [List.mem_cons, List.not_mem_nil, or_false] at mem
    obtain rfl | rfl | rfl := mem <;> cases m <;>
      first
      | rfl
      | cases eq
  exact .chain (connective _ _ (.inr rfl)) <| .chain (connective _ _ (.inl rfl)) <|
    .chain (family _ (by simp)) <| .chain (family _ (by simp)) <| .chain (family _ (by simp)) h

theorem IsBalanced.between {inside : Bool} {o c : Mark} {phrase : Phrase α}
    (h : IsBalanced true phrase) (pair : Brackets o c) :
    IsBalanced inside (Between o c phrase) := by
  rintro _ a ⟨opens, stands, closes⟩
  rw [List.map_cons, List.map_append, List.map_singleton, opens, closes]
  exact .bracket pair (h stands) .nil

theorem IsBalanced.listed {phrase : Phrase α} (h : IsBalanced true phrase) :
    IsBalanced true (Listed .comma phrase) := by
  intro ts as listed
  induction listed with
  | nil => exact .nil
  | last stands => exact h stands
  | cons stands separates _ ih =>
    rw [List.map_append, List.map_cons, separates]
    exact (h stands).append (.inner (.inl rfl) ih)

theorem IsBalanced.entry (h : IsBalanced false inner) : IsBalanced true (Entry inner) := by
  rintro _ _ ⟨names, colon, stands⟩
  rw [List.map_cons, List.map_cons, colon]
  refine .bare ?_ (.inner (.inr rfl) (h stands).within)
  obtain eq | eq := names <;> rw [eq] <;> rfl

theorem IsBalanced.primary (h : IsBalanced false inner) : IsBalanced false (Primary inner) := by
  have within : IsBalanced true inner := fun _ _ stands => (h stands).within
  intro ts e stands
  cases stands with
  | number kind | string kind | name kind =>
    rw [List.map_singleton, kind]
    exact .bare rfl .nil
  | bool value kind =>
    rw [List.map_singleton, kind]
    cases value <;> exact .bare rfl .nil
  | null kind =>
    rw [List.map_singleton, kind]
    exact .bare rfl .nil
  | group x => exact within.between .parens x
  | array x => exact within.listed.between .brackets x
  | map x => exact h.entry.listed.between .braces x

theorem IsBalanced.suffixed (h : IsBalanced false inner) : IsBalanced false (Suffixed inner) := by
  have within : IsBalanced true inner := fun _ _ stands => (h stands).within
  intro ts e stands
  induction stands with
  | primary x => exact h.primary x
  | call _ args ih =>
    rw [List.map_append]
    exact ih.append (within.listed.between .parens args)
  | property _ dot names ih =>
    rw [List.map_append, List.map_cons, List.map_singleton, dot, names]
    exact ih.append (.bare rfl (.bare rfl .nil))
  | index _ position ih =>
    rw [List.map_append]
    exact ih.append (within.between .brackets position)

theorem IsBalanced.signed (h : IsBalanced false inner) (h' : IsBalanced false deeper) :
    IsBalanced false (Signed inner deeper) := by
  intro ts e stands
  cases stands with
  | sign signs x =>
    rw [List.map_cons]
    refine .bare ?_ (h' x)
    unfold unary? at signs
    split at signs
    · next kind => exact kind ▸ rfl
    · next kind => exact kind ▸ rfl
    · cases signs
  | base x => exact h.suffixed x
  | power l raises r =>
    rw [List.map_append, List.map_cons, raises]
    exact (h.suffixed l).append (.bare rfl (h' r))

theorem balanced_signedAt (depth : Nat) : IsBalanced false (SignedAt depth) := by
  have never : IsBalanced false (Never (α := Expr)) := fun _ _ h => h.elim
  induction depth with
  | zero => exact never.signed never
  | succ depth ih => exact ih.disjunction.signed ih

theorem balanced_expressionAt (depth : Nat) : IsBalanced false (ExpressionAt depth) := by
  cases depth with
  | zero => exact fun _ _ h => h.elim
  | succ depth => exact (balanced_signedAt depth).disjunction

/-- Simple statements are balanced. -/
theorem balanced_plain (h : IsBalanced false expression) : IsBalanced false (Plain expression) := by
  intro ts stmt stands
  cases stands with
  | expression _ x => exact h x
  | assign _ x _ assigns value =>
    rw [List.map_append, List.map_cons]
    refine (h x).append (.bare ?_ (h value))
    unfold assignment? at assigns
    split at assigns
    all_goals first
      | next kind => exact kind ▸ rfl
      | cases assigns
  | leave _ kind =>
    rw [List.map_singleton, kind]
    exact .bare rfl .nil
  | leaveWith _ kind x =>
    rw [List.map_cons, kind]
    exact .bare rfl (h x)

end Phrase

/-! ## Headers of functions -/

open SheetScript.Expr in
theorem Balanced.passes {inside : Bool} {ks : List Kind} (h : Balanced inside ks) : Passes ks := by
  have cons : ∀ {k ks}, IsInner k → Passes ks → Passes (k :: ks) := fun inner rest =>
    closed_passes.append (closed_passes.inner inner) rest
  have mark : ∀ m ∈ [Mark.comma, .colon, .leftBracket, .rightBracket, .leftBrace, .rightBrace],
      IsInner (.mark m) := by
    show ∀ m ∈ _, m ∉ _
    decide
  induction h with
  | nil => exact closed_passes.nil
  | @bare _ k _ bare _ ih =>
    refine cons ?_ ih
    cases k with
    | mark m =>
      have outer : m ∉ [Mark.leftParen, .rightParen, .newline, .endOfInput] := by
        revert bare
        cases m <;> decide
      exact outer
    | fault f => cases bare
    | _ => trivial
  | inner inner _ ih => obtain rfl | rfl := inner <;> exact cons (mark _ (by decide)) ih
  | bracket pair _ _ ihs ih =>
    have brackets : ∀ {o c}, IsInner (.mark o) → IsInner (.mark c) → Passes _ :=
      fun opens closes => cons opens (closed_passes.append ihs (cons closes ih))
    cases pair with
    | parens =>
      have parens := closed_passes.append (closed_passes.parens ihs) ih
      simpa only [List.cons_append, List.nil_append, List.append_assoc] using parens
    | brackets => exact brackets (mark _ (by decide)) (mark _ (by decide))
    | braces => exact brackets (mark _ (by decide)) (mark _ (by decide))

/-- Outside of all brackets no colon comes first. -/
theorem Balanced.head?_append_ne_colon {ts rest : List Token}
    (h : Balanced false (ts.map Token.kind))
    (behind : ∀ t ∈ rest.head?, t.kind.isMark .colon = false) :
    (ts ++ rest).head?.any (·.kind.isMark .colon) = false := by
  cases ts with
  | nil =>
    cases rest with
    | nil => rfl
    | cons t rest => exact behind t rfl
  | cons t ts =>
    rw [List.cons_append, List.head?_cons, Option.any_some, Bool.eq_false_iff]
    intro colon
    have first := Kind.isMark_iff.1 colon
    obtain ⟨bare, -⟩ | ⟨no, -⟩ | ⟨o, c, _, _, here, pair, -⟩ := h.cons_cases
    · rw [first] at bare
      cases bare
    · cases no
    · rw [first] at here
      cases here
      cases pair

/-- Simple statements are no headers of functions, unless a colon or a parenthesis follows. -/
theorem header_eq_false_of_balanced {ts rest : List Token} (h : Balanced false (ts.map Token.kind))
    (some : ts ≠ [])
    (behind : ∀ t ∈ rest.head?, t.kind.isMark .colon = false ∧ t.kind.isMark .leftParen = false) :
    header (ts ++ rest) = false := by
  obtain ⟨t, ts, rfl⟩ := List.exists_cons_of_ne_nil some
  by_cases named : ∃ name, t.kind = .name name
  swap
  · exact header_of_not_name (not_exists.1 named) _
  obtain ⟨name, first⟩ := named
  have later : Balanced false (ts.map Token.kind) := by
    rw [List.map_cons, first] at h
    cases h with
    | bare _ rest => exact rest
  rw [List.cons_append]
  cases ts with
  | nil =>
    cases rest with
    | nil => rfl
    | cons next rest =>
      rw [List.nil_append, header_of_name first, (behind next rfl).2, Bool.false_and]
  | cons next ts =>
    rw [List.cons_append, header_of_name first]
    by_cases opens : next.kind = .mark .leftParen
    swap
    · rw [Bool.eq_false_iff.2 (mt Kind.isMark_iff.1 opens), Bool.false_and]
    rw [List.map_cons, opens] at later
    obtain ⟨bare, -⟩ | ⟨no, -⟩ | ⟨o, c, inner, outer, here, pair, eq, args, behind_args⟩ :=
      later.cons_cases
    · cases bare
    · cases no
    · cases here
      cases pair
      obtain ⟨ts, more, rfl, rfl, later⟩ := List.map_eq_append_iff.1 eq
      obtain ⟨close, more, rfl, closes, rfl⟩ := List.map_eq_cons_iff.1 later
      rw [List.append_assoc, args.passes rfl 1 _ (Nat.le_refl 1), List.cons_append,
        headerEnds_close closes, if_pos (Nat.le_refl 1),
        behind_args.head?_append_ne_colon fun t front => (behind t front).1, Bool.and_false]

/-! ## Where an expression ends -/

/-- The brackets that are open behind tokens of these kinds, if `count` were before; none if one is
closed that was not open, or if a comma, a colon or an end stands outside of all. -/
def height (count : Nat) : List Kind → Option Nat
  | [] => some count
  | .mark m :: ks =>
    if m.opens then height (count + 1) ks
    else if m.closes then
      match count with
      | 0 => none
      | count + 1 => height count ks
    else if count = 0 ∧ m ∈ [Mark.comma, .colon, .semicolon, .newline] then none
    else height count ks
  | _ :: ks => height count ks

theorem height_of_bare {k : Kind} (h : isBare k = true) (count : Nat) (ks : List Kind) :
    height count (k :: ks) = height count ks := by
  cases k with
  | mark m =>
    have no_end : m.opens = false ∧ m.closes = false ∧
        m ∉ [Mark.comma, .colon, .semicolon, .newline] := by
      revert h
      cases m <;> decide
    simp only [height, no_end, Bool.false_eq_true, if_false, and_false]
  | _ => rfl

theorem Balanced.height_append {inside : Bool} {ks : List Kind} (h : Balanced inside ks)
    (count : Nat) (out : inside = true → 0 < count) (rest : List Kind) :
    height count (ks ++ rest) = height count rest := by
  induction h generalizing count rest with
  | nil => rfl
  | bare bare _ ih => rw [List.cons_append, height_of_bare bare, ih count out]
  | inner mark _ ih =>
    have some := out rfl
    obtain rfl | rfl := mark <;>
      simp [height, Mark.opens, Mark.closes, ih count out, Nat.pos_iff_ne_zero.1 some]
  | bracket pair _ _ ihs ih =>
    have inner := ihs (count + 1) (fun _ => Nat.succ_pos count)
    cases pair <;>
      simp [height, Mark.opens, Mark.closes, inner, ih count out]

/-- Behind a front of a simple statement that is balanced itself goes on the statement, or it ends:
neither a comma nor a closing brace follows. -/
theorem Balanced.not_listed {front s ks rest : List Kind} {k : Kind} (h : Balanced false front)
    (h' : Balanced false s) (ends : k = .mark .semicolon ∨ k = .mark .newline)
    (eq : front ++ rest = s ++ k :: ks) :
    ∀ m ∈ [Mark.comma, .rightBrace], rest.head? ≠ some (.mark m) := by
  have outside : ∀ {ks}, Balanced false ks → ∀ rest, height 0 (ks ++ rest) = height 0 rest :=
    fun h => h.height_append 0 (fun no => by cases no)
  have closed : ∀ {ks}, Balanced false ks → height 0 ks = some 0 := fun {ks} h => by
    rw [← List.append_nil ks, outside h, height]
  -- the front ends in the statement, which goes on with `more`
  obtain ⟨more, rfl, rfl⟩ : ∃ more, s = front ++ more ∧ rest = more ++ k :: ks := by
    obtain ⟨more, split, later⟩ | ⟨more, rfl, split⟩ := List.append_eq_append_iff.1 eq
    · exact ⟨more, split, later⟩
    · cases more with
      | nil => exact ⟨[], by simp, split.symm⟩
      | cons k' more =>
        have flat : height 0 (k' :: more) = some 0 := by rw [← outside h', closed h]
        obtain ⟨rfl, -⟩ := List.cons.inj split
        obtain rfl | rfl := ends <;> simp [height, Mark.opens, Mark.closes] at flat
  have flat : height 0 more = some 0 := by rw [← outside h, closed h']
  intro m mem first
  simp only [List.mem_cons, List.not_mem_nil, or_false] at mem
  cases more with
  | nil =>
    obtain rfl := Option.some.inj first
    obtain rfl | rfl := mem <;> simp at ends
  | cons k' more =>
    obtain rfl := Option.some.inj first
    obtain rfl | rfl := mem <;> simp [height, Mark.opens, Mark.closes] at flat

end SheetScript
