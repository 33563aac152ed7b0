import SheetScript.Proofs.Program.Balanced

/-!
# Two readings side by side

Two lists of tokens begin alike and go on differently. An expression that begins in the common front
is read alike in both, as far as it is read: where the lists part stands the end of a statement, or
the colon of a block.

* `Alike` compares two results, `Keeps` two parsers on the lists with a common front. There is one
  rule for each thing that a parser does.
* `Parted` says how the lists may go on. A colon may be taken for that of an entry of a map, but
  then no value can be read behind it.
* `steady_expressionAt` is the result.
-/

namespace SheetScript

open Token

/-- The tokens ahead are of these kinds, and the last one ends the input. -/
def Tokens.Are (ts : Tokens) (kinds : List Kind) : Prop :=
  ts.Closed ∧ ts.ahead.map Token.kind = kinds

namespace Parser

variable {α β γ δ : Type} {k : Kind} {kinds : List Kind} {ts ts' : Tokens}

theorem kind_of_are (h : ts.Are kinds) : ts.kind = front kinds (.mark .endOfInput) := by
  obtain ⟨closed, rfl⟩ := h
  obtain ⟨ahead, last⟩ := ts
  cases ahead with
  | nil => exact closed
  | cons t ahead => rfl

theorem are_tail (h : ts.Are (k :: kinds)) : ts.tail.Are kinds := by
  obtain ⟨closed, eq⟩ := h
  obtain ⟨t, ahead, eq, -, later⟩ := List.map_eq_cons_iff.1 eq
  refine ⟨closed, ?_⟩
  rw [Tokens.tail, eq]
  exact later

/-! ## Results -/

/-- Two readings fail, or both give related things and leave related tokens. -/
inductive Alike (V : α → β → Prop) (S : Tokens → Tokens → Prop) :
    Except ScriptError (α × Tokens) → Except ScriptError (β × Tokens) → Prop
  | failed {e e' : ScriptError} : Alike V S (.error e) (.error e')
  | read {a : α} {b : β} {rest rest' : Tokens} (value : V a b) (left : S rest rest') :
      Alike V S (.ok (a, rest)) (.ok (b, rest'))

variable {V : α → β → Prop} {W : γ → δ → Prop} {S T : Tokens → Tokens → Prop}
  {p : Parser α} {p' : Parser β} {f : α → Parser γ} {g : β → Parser δ}

theorem Alike.mono {r : Except ScriptError (α × Tokens)} {r' : Except ScriptError (β × Tokens)}
    (h : Alike V S r r') (weaker : ∀ rest rest', S rest rest' → T rest rest') : Alike V T r r' := by
  cases h with
  | failed => exact .failed
  | read value left => exact .read value (weaker _ _ left)

theorem Alike.bind (h : Alike V S (p ts) (p' ts'))
    (h' : ∀ ⦃a b rest rest'⦄, V a b → S rest rest' → Alike W T (f a rest) (g b rest')) :
    Alike W T ((p >>= f) ts) ((p' >>= g) ts') := by
  have run : (p >>= f) ts = (p ts >>= fun r => f r.1 r.2) := rfl
  have run' : (p' >>= g) ts' = (p' ts' >>= fun r => g r.1 r.2) := rfl
  rw [run, run']
  generalize p ts = r, p' ts' = r' at h
  cases h with
  | failed => exact .failed
  | read value left => exact h' value left

/-! ## Lists that part -/

/-- What may stand where a statement ends, or before a block. -/
def IsStop (k : Kind) : Prop :=
  k = .mark .colon ∨ k = .mark .newline ∨ k = .mark .semicolon ∨ k = .mark .endOfInput

/-- Behind a colon nothing is read that could be the value of an entry. -/
def NoValue (X : List Kind) (value : Parser α) : Prop :=
  ∀ ⦃Y⦄, X = .mark .colon :: Y → ∀ ⦃ts⦄, ts.Are Y → ∀ ⦃a rest⦄, value ts = .ok (a, rest) →
    ∀ m ∈ [Mark.comma, .rightBrace], rest.kind ≠ .mark m

/-- How two lists may go on behind a common front. -/
structure Parted (X X' : List Kind) : Prop where
  stop : IsStop (front X (.mark .endOfInput))
  stop' : IsStop (front X' (.mark .endOfInput))
  colon : front X (.mark .endOfInput) = .mark .colon ↔ front X' (.mark .endOfInput) = .mark .colon
  noValue : ∀ depth, NoValue X (expressionAt depth)
  noValue' : ∀ depth, NoValue X' (expressionAt depth)

/-- Two parsers read alike behind the common front, and take no more than it. -/
def Keeps (X X' : List Kind) (V : α → β → Prop) (r : List Kind) (p : Parser α) (p' : Parser β) :
    Prop :=
  ∀ ⦃ts ts'⦄, ts.Are (r ++ X) → ts'.Are (r ++ X') →
    Alike V (fun rest rest' => ∃ r', r' <:+ r ∧ rest.Are (r' ++ X) ∧ rest'.Are (r' ++ X'))
      (p ts) (p' ts')

section Rules

variable {X X' r : List Kind}

/-! ## Rules -/

theorem keeps_pure {a : α} {b : β} (h : V a b) : Keeps X X' V r (pure a) (pure b) :=
  fun _ _ are are' => .read h ⟨r, List.suffix_rfl, are, are'⟩

theorem keeps_fail (c c' : Complaint) : Keeps X X' V r (fail c) (fail c') :=
  fun _ _ _ _ => .failed

theorem Keeps.bind (h : Keeps X X' V r p p')
    (h' : ∀ ⦃a b⦄, V a b → ∀ r', r' <:+ r → Keeps X X' W r' (f a) (g b)) :
    Keeps X X' W r (p >>= f) (p' >>= g) := by
  intro ts ts' are are'
  refine (h are are').bind fun a b rest rest' value left => ?_
  obtain ⟨r', suffix, are, are'⟩ := left
  refine (h' value r' suffix are are').mono fun rest rest' left => ?_
  obtain ⟨r'', suffix', left⟩ := left
  exact ⟨r'', suffix'.trans suffix, left⟩

/-- The front is the same in both, or the lists part there. -/
theorem keeps_peek {f : Kind → Parser γ} {g : Kind → Parser δ} (parted : Parted X X')
    (q : Parser γ) (q' : Parser δ) (stops : ∀ k, IsStop k → f k = q ∧ g k = q')
    (h' : Keeps X X' W [] q q')
    (h : ∀ k r', r = k :: r' → Keeps X X' W (k :: r') (f k) (g k)) :
    Keeps X X' W r (peek >>= f) (peek >>= g) := by
  intro ts ts' are are'
  rw [peek_bind, peek_bind, kind_of_are are, kind_of_are are']
  cases r with
  | nil =>
    rw [List.nil_append, List.nil_append, (stops _ parted.stop).1, (stops _ parted.stop').2]
    exact h' are are'
  | cons k r => exact h k r rfl are are'

theorem keeps_skip {f : Unit → Parser γ} {g : Unit → Parser δ}
    (h : Keeps X X' W r (f ()) (g ())) : Keeps X X' W (k :: r) (skip >>= f) (skip >>= g) := by
  intro ts ts' are are'
  refine (h (are_tail are) (are_tail are')).mono fun rest rest' left => ?_
  obtain ⟨r', suffix, left⟩ := left
  exact ⟨r', suffix.trans (List.suffix_cons k r), left⟩

theorem keeps_line {f : Nat → Parser γ} {g : Nat → Parser δ}
    (h : ∀ n n', Keeps X X' W r (f n) (g n')) : Keeps X X' W r (line >>= f) (line >>= g) :=
  fun ts ts' are are' => h ts.current.line ts'.current.line are are'

/-- Both have room for the tokens of the common front. -/
theorem keeps_room {f : List Token → Parser γ} {g : List Token → Parser δ}
    (h : ∀ room room', r.length < room.length → r.length < room'.length →
      Keeps X X' W r (f room) (g room')) : Keeps X X' W r (room >>= f) (room >>= g) := by
  have fits : ∀ {ts : Tokens} {X}, ts.Are (r ++ X) → r.length < (ts.last :: ts.ahead).length := by
    intro ts X are
    rw [List.length_cons, ← List.length_map Token.kind, are.2, List.length_append]
    omega
  exact fun ts ts' are are' => h _ _ (fits are) (fits are') are are'

/-- The mark is seen in both or in none. -/
theorem isMark_front (parted : Parted X X') {m : Mark} (inner : ¬ IsStop (.mark m)) :
    (front (r ++ X') (.mark .endOfInput)).isMark m =
      (front (r ++ X) (.mark .endOfInput)).isMark m := by
  have unseen : ∀ {k : Kind}, IsStop k → k.isMark m = false := fun stop =>
    Bool.eq_false_iff.2 fun seen => inner (Kind.isMark_iff.1 seen ▸ stop)
  cases r with
  | nil => rw [List.nil_append, List.nil_append, unseen parted.stop, unseen parted.stop']
  | cons k r => rfl

theorem keeps_sees (parted : Parted X X') {m : Mark} (inner : ¬ IsStop (.mark m))
    {f : Bool → Parser γ} {g : Bool → Parser δ}
    (yes : ∀ r', r = .mark m :: r' → Keeps X X' W r (f true) (g true))
    (no : Keeps X X' W r (f false) (g false)) :
    Keeps X X' W r (sees m >>= f) (sees m >>= g) := by
  intro ts ts' are are'
  rw [sees_bind, sees_bind, kind_of_are are, kind_of_are are', isMark_front parted inner]
  cases seen : (front (r ++ X) (.mark .endOfInput)).isMark m with
  | false => exact no are are'
  | true =>
    cases r with
    | nil => exact absurd (Kind.isMark_iff.1 seen ▸ parted.stop) inner
    | cons k r =>
      obtain rfl := Kind.isMark_iff.1 seen
      exact yes r rfl are are'

theorem keeps_take (parted : Parted X X') {m : Mark} (inner : ¬ IsStop (.mark m))
    {f : Bool → Parser γ} {g : Bool → Parser δ}
    (yes : ∀ r', r = .mark m :: r' → Keeps X X' W r' (f true) (g true))
    (no : Keeps X X' W r (f false) (g false)) :
    Keeps X X' W r (take m >>= f) (take m >>= g) := by
  intro ts ts' are are'
  have same := isMark_front (r := r) parted inner
  rw [← kind_of_are are, ← kind_of_are are'] at same
  rw [take_bind, take_bind, Tokens.at?, Tokens.at?, same]
  split_ifs with seen
  · rw [kind_of_are are] at seen
    cases r with
    | nil => exact absurd (Kind.isMark_iff.1 seen ▸ parted.stop) inner
    | cons k r =>
      obtain rfl := Kind.isMark_iff.1 seen
      exact keeps_skip (f := fun _ => f true) (g := fun _ => g true) (yes r rfl) are are'
  · exact no are are'

theorem keeps_expect (parted : Parted X X') {m : Mark} (inner : ¬ IsStop (.mark m)) {c : Complaint}
    {f : Unit → Parser γ} {g : Unit → Parser δ}
    (h : ∀ r', r = .mark m :: r' → Keeps X X' W r' (f ()) (g ())) :
    Keeps X X' W r (expect m c >>= f) (expect m c >>= g) := by
  unfold expect
  rw [bind_assoc, bind_assoc]
  exact keeps_take parted inner h fun _ _ _ _ => .failed

theorem keeps_name (parted : Parted X X') {c : Complaint} {f : String → Parser γ}
    {g : String → Parser δ}
    (h : ∀ s r', r = .name s :: r' → Keeps X X' W r' (f s) (g s)) :
    Keeps X X' W r (name c >>= f) (name c >>= g) := by
  unfold name
  rw [bind_assoc, bind_assoc]
  refine keeps_peek parted (fail c >>= f) (fail c >>= g) ?_ (fun _ _ _ _ => .failed)
    fun k r' eq => ?_
  · rintro k (rfl | rfl | rfl | rfl) <;> exact ⟨rfl, rfl⟩
  · subst eq
    split
    · next s =>
      rw [bind_assoc, bind_assoc]
      exact keeps_skip (h s r' rfl)
    · exact fun _ _ _ _ => .failed

end Rules

/-! ## Expressions -/

section Expressions

variable {X X' : List Kind} {inner deeper operand : Parser Expr}

/-- A parser reads alike behind every common front. -/
def Steady (X X' : List Kind) (p : Parser α) : Prop := ∀ r, Keeps X X' Eq r p p

theorem Steady.bind {p : Parser α} (h : Steady X X' p) {f : α → Parser γ} {g : α → Parser δ}
    {r : List Kind} (h' : ∀ a r', r' <:+ r → Keeps X X' W r' (f a) (g a)) :
    Keeps X X' W r (p >>= f) (p >>= g) := by
  refine (h r).bind fun a b eq r' suffix => ?_
  subst eq
  exact h' a r' suffix

theorem keeps_chainFrom (parted : Parted X X') {joiner? : Kind → Option (Expr → Expr → Expr)}
    (ends : ∀ k, IsStop k → joiner? k = none) (each : Steady X X' operand)
    (room room' : List Token) (r : List Kind) (left : Expr) (fits : r.length < room.length)
    (fits' : r.length < room'.length) :
    Keeps X X' Eq r (chainFrom joiner? operand room left)
      (chainFrom joiner? operand room' left) := by
  induction room generalizing room' r left with
  | nil => cases fits
  | cons _ room ih =>
    cases room' with
    | nil => cases fits'
    | cons _ room' =>
      refine keeps_peek parted (pure left) (pure left) (fun k stop => ?_) (keeps_pure rfl)
        fun k r' eq => ?_
      · rw [ends k stop]
        exact ⟨rfl, rfl⟩
      · subst eq
        cases joiner? k with
        | none => exact keeps_pure rfl
        | some join =>
          refine keeps_skip (each.bind fun right r' suffix => ?_)
          have shorter := suffix.length_le
          simp only [List.length_cons] at fits fits'
          exact ih room' r' _ (by omega) (by omega)

theorem steady_chain (parted : Parted X X') {joiner? : Kind → Option (Expr → Expr → Expr)}
    (ends : ∀ k, IsStop k → joiner? k = none) (each : Steady X X' operand) :
    Steady X X' (chain joiner? operand) := fun _ =>
  each.bind fun left _ _ => keeps_room fun room room' fits fits' =>
    keeps_chainFrom parted ends each room room' _ left fits fits'

theorem steady_disjunction (parted : Parted X X') (each : Steady X X' operand) :
    Steady X X' (disjunction operand) := by
  have ends : ∀ {joiner? : Kind → Option (Expr → Expr → Expr)},
      (∀ m ∈ [Mark.colon, .newline, .semicolon, .endOfInput], joiner? (.mark m) = none) →
      ∀ k, IsStop k → joiner? k = none := by
    rintro joiner? none k (rfl | rfl | rfl | rfl) <;> exact none _ (by decide)
  have layer : ∀ {joiner? : Kind → Option (Expr → Expr → Expr)} {operand},
      (∀ m ∈ [Mark.colon, .newline, .semicolon, .endOfInput], joiner? (.mark m) = none) →
      Steady X X' operand → Steady X X' (chain joiner? operand) :=
    fun none each => steady_chain parted (ends none) each
  exact layer (by simp [connect?]) <| layer (by simp [connect?]) <|
    layer (by simp [join?, comparison?]) <| layer (by simp [join?, sum?]) <|
    layer (by simp [join?, product?]) each

theorem not_isStop {m : Mark} (h : m ∉ [Mark.colon, .newline, .semicolon, .endOfInput]) :
    ¬ IsStop (.mark m) := by
  rintro (eq | eq | eq | eq) <;> cases eq <;> simp at h

theorem keeps_listFrom (parted : Parted X X') {close : Mark} (inner : ¬ IsStop (.mark close))
    {item : Parser α} (each : Steady X X' item) (room room' : List Token) (r : List Kind)
    (before : List α) (fits : r.length < room.length) (fits' : r.length < room'.length) :
    Keeps X X' Eq r (listFrom item close room before) (listFrom item close room' before) := by
  induction room generalizing room' r before with
  | nil => cases fits
  | cons _ room ih =>
    cases room' with
    | nil => cases fits'
    | cons _ room' =>
      refine keeps_sees parted inner (fun _ _ => keeps_pure rfl) ?_
      refine each.bind fun a r' suffix => ?_
      refine keeps_take parted (not_isStop (by decide)) (fun r'' eq => ?_) (keeps_pure rfl)
      subst eq
      have shorter := suffix.length_le
      simp only [List.length_cons] at fits fits' shorter
      exact ih room' r'' _ (by omega) (by omega)

theorem steady_items (parted : Parted X X') {close : Mark} (inside : ¬ IsStop (.mark close))
    (each : Steady X X' inner) : Steady X X' (items inner close) := fun r =>
  keeps_room fun room room' fits fits' => by
    rw [itemsFrom_eq, itemsFrom_eq]
    exact keeps_listFrom parted inside each room room' r [] fits fits'

/-! ## Maps -/

/-- The entries of a map and the closing brace. -/
def mapFrom (value : Parser Expr) (room : List Token) (before : List (String × Expr)) :
    Parser Expr := do
  let entries ← entriesFrom value room before
  expect .rightBrace .unclosedMap
  return .map entries

/-- What is behind the key and the colon of an entry. -/
def entryThen (value : Parser Expr) (room : List Token) (before : List (String × Expr))
    (k : String) : Parser Expr := do
  let v ← value
  if ← take .comma then mapFrom value room ((k, v) :: before)
  else
    expect .rightBrace .unclosedMap
    return .map ((k, v) :: before).reverse

theorem mapFrom_cons (value : Parser Expr) (t : Token) (room : List Token)
    (before : List (String × Expr)) : mapFrom value (t :: room) before = (do
      if ← sees .rightBrace then
        expect .rightBrace .unclosedMap
        return .map before.reverse
      else
        let k ← key
        expect .colon .missingKeyColon
        entryThen value room before k) := by
  simp only [mapFrom, entriesFrom, entryThen, bind_assoc]
  refine bind_congr fun seen => ?_
  cases seen with
  | true => rfl
  | false =>
    simp only [Bool.false_eq_true, if_false, bind_assoc]
    refine bind_congr fun k => bind_congr fun _ => bind_congr fun v => bind_congr fun more => ?_
    cases more <;> rfl

/-- No map is read where the value of an entry cannot be. -/
theorem entryThen_fails {Y : List Kind} (none : NoValue X inner) (eq : X = .mark .colon :: Y)
    (are : ts.Are Y) (room : List Token) (before : List (String × Expr)) (k : String) :
    ∃ e, entryThen inner room before k ts = .error e := by
  have run : ∀ f : Expr → Parser Expr, (inner >>= f) ts = (inner ts >>= fun r => f r.1 r.2) :=
    fun _ => rfl
  rw [entryThen, run]
  cases read : inner ts with
  | error e => exact ⟨e, rfl⟩
  | ok r =>
    obtain ⟨v, rest⟩ := r
    have unseen : ∀ m ∈ [Mark.comma, .rightBrace], rest.at? m = false := fun m mem =>
      Bool.eq_false_iff.2 fun seen => none eq are read m mem (Kind.isMark_iff.1 seen)
    have last : ∃ e, (take .comma >>= fun more : Bool =>
        if more then mapFrom inner room ((k, v) :: before)
        else expect .rightBrace .unclosedMap >>= fun _ =>
          pure (Expr.map ((k, v) :: before).reverse)) rest = .error e := by
      rw [take_bind, unseen .comma (by decide), if_neg Bool.false_ne_true,
        if_neg Bool.false_ne_true, expect_bind, unseen .rightBrace (by decide)]
      exact ⟨_, rfl⟩
    exact last

/-- The colon of an entry is taken in both, or the lists part at it. -/
theorem keeps_colon (parted : Parted X X') {c : Complaint} {r : List Kind} {p p' : Parser Expr}
    (h : ∀ r', r = .mark .colon :: r' → Keeps X X' Eq r' p p')
    (fails : ∀ Y ts, X = .mark .colon :: Y → ts.Are Y → ∃ e, p ts = .error e)
    (fails' : ∀ Y ts, X' = .mark .colon :: Y → ts.Are Y → ∃ e, p' ts = .error e) :
    Keeps X X' Eq r (expect .colon c >>= fun _ => p) (expect .colon c >>= fun _ => p') := by
  intro ts ts' are are'
  rw [expect_bind, expect_bind, Tokens.at?, Tokens.at?, kind_of_are are, kind_of_are are']
  cases r with
  | cons k r =>
    have same : ∀ Y, front (k :: r ++ Y) (.mark .endOfInput) = k := fun _ => rfl
    rw [same, same]
    split_ifs with colon
    · obtain rfl := Kind.isMark_iff.1 colon
      exact keeps_skip (f := fun _ => p) (g := fun _ => p') (h r rfl) are are'
    · exact .failed
  | nil =>
    rw [List.nil_append] at are are'
    rw [List.nil_append, List.nil_append]
    have same : (front X (.mark .endOfInput)).isMark .colon =
        (front X' (.mark .endOfInput)).isMark .colon := by
      rw [Bool.eq_iff_iff, Kind.isMark_iff, Kind.isMark_iff]
      exact parted.colon
    rw [← same]
    split_ifs with colon
    · have taken : ∀ {X}, (front X (.mark .endOfInput)).isMark .colon = true →
          ∃ Y, X = .mark .colon :: Y := by
        intro X colon
        cases X with
        | nil => cases colon
        | cons k Y => exact ⟨Y, congrArg (· :: Y) (Kind.isMark_iff.1 colon)⟩
      obtain ⟨Y, rfl⟩ := taken colon
      obtain ⟨Y', rfl⟩ := taken (same.symm.trans colon)
      obtain ⟨e, failed⟩ := fails Y ts.tail rfl (are_tail are)
      obtain ⟨e', failed'⟩ := fails' Y' ts'.tail rfl (are_tail are')
      rw [failed, failed']
      exact .failed
    · exact .failed

theorem keeps_mapFrom (parted : Parted X X') (each : Steady X X' inner) (none : NoValue X inner)
    (none' : NoValue X' inner) (room room' : List Token) (r : List Kind)
    (before : List (String × Expr)) (fits : r.length < room.length)
    (fits' : r.length < room'.length) :
    Keeps X X' Eq r (mapFrom inner room before) (mapFrom inner room' before) := by
  have close : ∀ r entries, Keeps X X' Eq r
      (expect .rightBrace .unclosedMap >>= fun _ => pure (Expr.map entries))
      (expect .rightBrace .unclosedMap >>= fun _ => pure (Expr.map entries)) := fun r entries =>
    keeps_expect parted (not_isStop (by decide)) fun _ _ => keeps_pure rfl
  have key : Steady X X' key := fun r => by
    refine keeps_peek parted (fail .missingKey) (fail .missingKey) ?_ (keeps_fail _ _)
      fun k r' eq => ?_
    · rintro k (rfl | rfl | rfl | rfl) <;> exact ⟨rfl, rfl⟩
    · subst eq
      split
      · exact keeps_skip (keeps_pure rfl)
      · exact keeps_skip (keeps_pure rfl)
      · exact keeps_fail _ _
  induction room generalizing room' r before with
  | nil => cases fits
  | cons _ room ih =>
    cases room' with
    | nil => cases fits'
    | cons _ room' =>
      rw [mapFrom_cons, mapFrom_cons]
      refine keeps_sees parted (not_isStop (by decide)) (fun _ _ => close r _) ?_
      refine key.bind fun k r' suffix => keeps_colon parted (fun r'' eq => ?_)
        (fun Y ts eq are => entryThen_fails none eq are _ _ _)
        (fun Y ts eq are => entryThen_fails none' eq are _ _ _)
      refine each.bind fun v s suffix' => ?_
      refine keeps_take parted (not_isStop (by decide)) (fun s' eq' => ?_) (close s _)
      subst eq eq'
      have shorter := suffix.length_le
      have shorter' := suffix'.length_le
      simp only [List.length_cons] at fits fits' shorter shorter'
      exact ih room' s' _ (by omega) (by omega)

/-! ## Operands -/

theorem steady_primary (parted : Parted X X') (each : Steady X X' inner) (none : NoValue X inner)
    (none' : NoValue X' inner) : Steady X X' (primary inner) := fun r => by
  have closed : ∀ {α : Type} {p : Parser α} {m : Mark} {c : Complaint} {f : α → Expr}
      {r : List Kind}, m ∉ [Mark.colon, .newline, .semicolon, .endOfInput] → Steady X X' p →
      Keeps X X' Eq r (p >>= fun a => expect m c >>= fun _ => pure (f a))
        (p >>= fun a => expect m c >>= fun _ => pure (f a)) := fun inside h =>
    h.bind fun _ _ _ => keeps_expect parted (not_isStop inside) fun _ _ => keeps_pure rfl
  refine keeps_peek parted (fail .unexpectedToken) (fail .unexpectedToken) ?_ (keeps_fail _ _)
    fun k r' eq => ?_
  · rintro k (rfl | rfl | rfl | rfl) <;> exact ⟨rfl, rfl⟩
  · subst eq
    split
    case h_7 => exact keeps_skip (closed (by decide) each)
    case h_8 =>
      exact keeps_skip (closed (by decide) (steady_items parted (not_isStop (by decide)) each))
    case h_9 =>
      exact keeps_skip (keeps_room fun room room' fits fits' =>
        keeps_mapFrom parted each none none' room room' r' [] fits fits')
    case h_10 => exact keeps_fail _ _
    all_goals exact keeps_skip (keeps_pure rfl)

theorem keeps_suffixesFrom (parted : Parted X X') (each : Steady X X' inner)
    (room room' : List Token) (r : List Kind) (e : Expr) (fits : r.length < room.length)
    (fits' : r.length < room'.length) :
    Keeps X X' Eq r (suffixesFrom inner room e) (suffixesFrom inner room' e) := by
  induction room generalizing room' r e with
  | nil => cases fits
  | cons _ room ih =>
    cases room' with
    | nil => cases fits'
    | cons _ room' =>
      have next : ∀ {k r r' e}, k :: r' <:+ r → r.length < room.length →
          r.length < room'.length → Keeps X X' Eq r' (suffixesFrom inner room e)
            (suffixesFrom inner room' e) := by
        intro k r r' e suffix fits fits'
        have shorter := suffix.length_le
        rw [List.length_cons] at shorter
        exact ih room' r' e (by omega) (by omega)
      refine keeps_peek parted (pure e) (pure e) ?_ (keeps_pure rfl) fun k r' eq => ?_
      · rintro k (rfl | rfl | rfl | rfl) <;> exact ⟨rfl, rfl⟩
      · subst eq
        simp only [List.length_cons, Nat.add_lt_add_iff_right] at fits fits'
        split
        · refine keeps_skip ((steady_items parted (not_isStop (by decide)) each).bind
            fun args s suffix => keeps_expect parted (not_isStop (by decide)) fun s' eq => ?_)
          exact next (eq ▸ suffix) fits fits'
        · refine keeps_skip (keeps_name parted fun name s eq => ?_)
          subst eq
          exact next List.suffix_rfl fits fits'
        · refine keeps_skip (each.bind fun position s suffix =>
            keeps_expect parted (not_isStop (by decide)) fun s' eq => ?_)
          exact next (eq ▸ suffix) fits fits'
        · exact keeps_pure rfl

theorem steady_signedWith (parted : Parted X X') (each : Steady X X' inner)
    (none : NoValue X inner) (none' : NoValue X' inner) (next : Steady X X' deeper) :
    Steady X X' (signedWith inner deeper) := fun r => by
  have unsigned : Steady X X' (suffixed inner >>= fun base => take .power >>= fun raised : Bool =>
      if raised then deeper >>= fun e => pure (Expr.binary .power base e) else pure base) := by
    intro r
    have base : Steady X X' (suffixed inner) := fun r =>
      (steady_primary parted each none none').bind fun e r' _ =>
        keeps_room fun room room' fits fits' =>
          keeps_suffixesFrom parted each room room' r' e fits fits'
    refine base.bind fun e r' _ => keeps_take parted (not_isStop (by decide)) (fun s _ => ?_)
      (keeps_pure rfl)
    exact next.bind fun _ _ _ => keeps_pure rfl
  refine keeps_peek parted _ _ ?_ (unsigned []) fun k r' eq => ?_
  · rintro k (rfl | rfl | rfl | rfl) <;> exact ⟨rfl, rfl⟩
  · subst eq
    cases unary? k with
    | none => exact unsigned _
    | some op => exact keeps_skip (next.bind fun _ _ _ => keeps_pure rfl)

theorem steady_tooDeep : Steady X X' (tooDeep : Parser α) := fun _ => keeps_fail _ _

theorem steady_signedAt (parted : Parted X X') (depth : Nat) :
    Steady X X' (signedAt depth) := by
  have none : ∀ X, NoValue X (tooDeep : Parser Expr) := fun _ _ _ _ _ _ _ eq => by cases eq
  induction depth with
  | zero => exact steady_signedWith parted steady_tooDeep (none X) (none X') steady_tooDeep
  | succ depth ih =>
    exact steady_signedWith parted (steady_disjunction parted ih) (parted.noValue (depth + 1))
      (parted.noValue' (depth + 1)) ih

theorem steady_expressionAt (parted : Parted X X') (depth : Nat) :
    Steady X X' (expressionAt depth) := by
  cases depth with
  | zero => exact steady_tooDeep
  | succ depth => exact steady_disjunction parted (steady_signedAt parted depth)

end Expressions

end Parser

end SheetScript
