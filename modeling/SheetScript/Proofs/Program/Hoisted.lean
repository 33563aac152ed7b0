import Mathlib.Data.List.Sort
import Mathlib.Data.String.Basic
import Mathlib.Order.WithBot
import SheetScript.Run.Interpreter

/-!
# Declarations at the front

The functions that a block declares are bound when the block is entered, so it should not matter
where in the block a declaration stands.

* `Stmt.Moved` says that two blocks are the same but for the places of declarations, at any depth.
  The declarations of one name stay in their order, and so do all other statements.
* `Stmt.hoistedAll` is the block with the declarations of every block at its front, in the order of
  their names. Moving a declaration does not change that (`Stmt.Moved.hoistedAll_eq`).
-/

namespace SheetScript

namespace Stmt

/-- The name that a statement declares. -/
def declares? (s : Stmt) : Option String := s.function?.map Function.name

/-- The statements of a block that declare a name; for no name, those that declare nothing. -/
def declaring (name? : Option String) (block : List Stmt) : List Stmt :=
  block.filter (·.declares? == name?)

/-- Declarations have been moved within their blocks: in a block, or in the blocks of a statement,
and so on. The line of a statement goes with it. -/
inductive Moved : List Stmt → List Stmt → Prop
  /-- The declarations of each name are the same, in their order, and so are all other
  statements. -/
  | here {block block' : List Stmt}
      (same : ∀ name?, declaring name? block = declaring name? block') : Moved block block'
  | trans {block block' block'' : List Stmt} (h : Moved block block') (h' : Moved block' block'') :
      Moved block block''
  | behind (s : Stmt) {rest rest' : List Stmt} (h : Moved rest rest') :
      Moved (s :: rest) (s :: rest')
  | function (line : Nat) (name : String) (params : List String) {body body' : List Stmt}
      (h : Moved body body') (rest : List Stmt) :
      Moved (.function line name params body :: rest) (.function line name params body' :: rest)
  | loop (line : Nat) (name : String) (items : Expr) {body body' : List Stmt} (h : Moved body body')
      (rest : List Stmt) :
      Moved (.loop line name items body :: rest) (.loop line name items body' :: rest)
  | branch (line : Nat) (before after : List (Expr × List Stmt)) (condition : Expr)
      {body body' : List Stmt} (h : Moved body body') (otherwise : Option (List Stmt))
      (rest : List Stmt) :
      Moved (.choose line (before ++ (condition, body) :: after) otherwise :: rest)
        (.choose line (before ++ (condition, body') :: after) otherwise :: rest)
  | otherwise (line : Nat) (branches : List (Expr × List Stmt)) {body body' : List Stmt}
      (h : Moved body body') (rest : List Stmt) :
      Moved (.choose line branches (some body) :: rest) (.choose line branches (some body') :: rest)

theorem declaring_self (s : Stmt) (rest : List Stmt) :
    declaring s.declares? (s :: rest) = s :: declaring s.declares? rest :=
  List.filter_cons_of_pos (beq_iff_eq.2 rfl)

theorem declaring_of_ne {s : Stmt} {name? : Option String} (h : s.declares? ≠ name?)
    (rest : List Stmt) : declaring name? (s :: rest) = declaring name? rest :=
  List.filter_cons_of_neg (mt beq_iff_eq.1 h)

theorem declaring_append (name? : Option String) (front rest : List Stmt) :
    declaring name? (front ++ rest) = declaring name? front ++ declaring name? rest :=
  List.filter_append ..

/-- A declaration may trade places with a statement that does not declare the same name. -/
theorem moved_swap {s t : Stmt} (apart : s.declares? ≠ t.declares?) (rest : List Stmt) :
    Moved (s :: t :: rest) (t :: s :: rest) := .here fun name? => by
  by_cases own : s.declares? = name?
  · subst own
    rw [declaring_self, declaring_of_ne apart.symm, declaring_of_ne apart.symm, declaring_self]
  · have skip : declaring name? (t :: s :: rest) = declaring name? (t :: rest) := by
      rw [← List.singleton_append, declaring_append, declaring_of_ne own, ← declaring_append]
      rfl
    rw [declaring_of_ne own, skip]

/-! ## The order of a hoisted block -/

/-- Where a statement stands in a hoisted block: declarations by their names, and then all else. -/
def rank (s : Stmt) : WithTop String :=
  match s.declares? with
  | some name => name
  | none => ⊤

/-- One statement may stand before the other in a hoisted block. -/
def Precedes (s t : Stmt) : Prop := s.rank ≤ t.rank

instance : DecidableRel Precedes := fun s t => inferInstanceAs (Decidable (s.rank ≤ t.rank))

theorem rank_eq_iff {s t : Stmt} : s.rank = t.rank ↔ s.declares? = t.declares? := by
  unfold rank
  cases s.declares? <;> cases t.declares? <;> simp

/-- Only declarations stand before a statement that belongs behind them. -/
theorem exists_function_of_rank_lt {s t : Stmt} (h : s.rank < t.rank) :
    ∃ f, s.function? = some f := by
  cases declares : s.function? with
  | some f => exact ⟨f, rfl⟩
  | none =>
    rw [rank, declares?, declares] at h
    exact absurd h not_top_lt

theorem functions_of_some {s : Stmt} {f : Function} (h : s.function? = some f)
    (rest : List Stmt) : functions (s :: rest) = f :: functions rest := List.filterMap_cons_some h

theorem functions_of_none {s : Stmt} (h : s.function? = none) (rest : List Stmt) :
    functions (s :: rest) = functions rest := List.filterMap_cons_none h

/-- Put a statement where it belongs in a hoisted block. -/
def insertIn (block : List Stmt) (s : Stmt) : List Stmt := block.orderedInsert Precedes s

theorem insertIn_cons_of_le {s t : Stmt} (h : s.rank ≤ t.rank) (rest : List Stmt) :
    insertIn (t :: rest) s = s :: t :: rest := List.orderedInsert_cons_of_le _ _ h

theorem insertIn_cons_of_lt {s t : Stmt} (h : t.rank < s.rank) (rest : List Stmt) :
    insertIn (t :: rest) s = t :: insertIn rest s := List.orderedInsert_of_not_le _ _ (not_le.2 h)

/-- It does not matter which of two statements is put in first, if one of them has to stand before
the other. -/
theorem insertIn_comm {s t : Stmt} (apart : s.rank ≠ t.rank) (block : List Stmt) :
    insertIn (insertIn block s) t = insertIn (insertIn block t) s := by
  wlog less : s.rank < t.rank generalizing s t
  · exact (this apart.symm (apart.lt_or_gt.resolve_left less)).symm
  induction block with
  | nil =>
    change insertIn [s] t = insertIn [t] s
    rw [insertIn_cons_of_lt less, insertIn_cons_of_le less.le]
    rfl
  | cons u rest ih =>
    obtain here | later := le_or_gt s.rank u.rank
    · rw [insertIn_cons_of_le here, insertIn_cons_of_lt less]
      obtain before | behind := le_or_gt t.rank u.rank
      · rw [insertIn_cons_of_le before, insertIn_cons_of_le less.le]
      · rw [insertIn_cons_of_lt behind, insertIn_cons_of_le here]
    · rw [insertIn_cons_of_lt later, insertIn_cons_of_lt (later.trans less),
        insertIn_cons_of_lt (later.trans less), insertIn_cons_of_lt later, ih]

/-- Where a statement is put does not change the order of what is of its kind. -/
theorem declaring_insertIn (name? : Option String) (block : List Stmt) (s : Stmt) :
    declaring name? (insertIn block s) = declaring name? (s :: block) := by
  induction block with
  | nil => rfl
  | cons t rest ih =>
    obtain here | later := le_or_gt s.rank t.rank
    · rw [insertIn_cons_of_le here]
    · rw [insertIn_cons_of_lt later]
      by_cases own : t.declares? = name?
      · subst own
        have other : s.declares? ≠ t.declares? := fun same => later.ne' (rank_eq_iff.2 same)
        rw [declaring_self, ih, declaring_of_ne other, declaring_of_ne other, declaring_self]
      · have skip := declaring_append name? [s]
        rw [declaring_of_ne own, ih]
        exact (skip rest).trans ((congrArg _ (declaring_of_ne own rest)).symm.trans (skip _).symm)

/-! ## Hoisted programs -/

mutual

/-- A statement with the declarations at the front of all its blocks. -/
def hoisted : Stmt → Stmt
  | .expression line value => .expression line value
  | .assign line target op value => .assign line target op value
  | .choose line branches otherwise =>
    .choose line (hoistedBranches branches) (hoistedOtherwise otherwise)
  | .loop line name items body => .loop line name items (hoistedAll body)
  | .function line name params body => .function line name params (hoistedAll body)
  | .leave line value => .leave line value

/-- The blocks of the conditions with the declarations at the front. -/
def hoistedBranches : List (Expr × List Stmt) → List (Expr × List Stmt)
  | [] => []
  | (condition, body) :: rest => (condition, hoistedAll body) :: hoistedBranches rest

/-- The block for when no condition holds with the declarations at the front. -/
def hoistedOtherwise : Option (List Stmt) → Option (List Stmt)
  | none => none
  | some body => some (hoistedAll body)

/-- A block with the declarations at the front, in the order of their names. Those of one name stay
in their order. -/
def hoistedAll : List Stmt → List Stmt
  | [] => []
  | s :: rest => insertIn (hoistedAll rest) s.hoisted

end

end Stmt

/-- A function with the declarations at the front of all its blocks. -/
def Function.hoisted (f : Function) : Function := { f with body := Stmt.hoistedAll f.body }

theorem Function.hoisted_eq_iff {f f' : Function} : f.hoisted = f'.hoisted ↔ f.name = f'.name ∧
    f.params = f'.params ∧ Stmt.hoistedAll f.body = Stmt.hoistedAll f'.body ∧
    f.line = f'.line := by
  rw [hoisted, hoisted, mk.injEq]

namespace Stmt

theorem function?_hoisted (s : Stmt) : s.hoisted.function? = s.function?.map Function.hoisted := by
  cases s <;> rfl

@[simp] theorem declares?_hoisted (s : Stmt) : s.hoisted.declares? = s.declares? := by
  rw [declares?, function?_hoisted, declares?, Option.map_map]
  rfl

@[simp] theorem rank_hoisted (s : Stmt) : s.hoisted.rank = s.rank :=
  rank_eq_iff.2 s.declares?_hoisted

theorem hoistedBranches_append (branches others : List (Expr × List Stmt)) :
    hoistedBranches (branches ++ others) = hoistedBranches branches ++ hoistedBranches others := by
  induction branches with
  | nil => rfl
  | cons branch branches ih =>
    obtain ⟨condition, body⟩ := branch
    rw [List.cons_append, hoistedBranches, hoistedBranches, ih]
    rfl

theorem hoistedAll_insertIn (block : List Stmt) (s : Stmt) :
    hoistedAll (insertIn block s) = insertIn (hoistedAll block) s.hoisted := by
  induction block with
  | nil => rfl
  | cons t rest ih =>
    obtain here | later := le_or_gt s.rank t.rank
    · rw [insertIn_cons_of_le here]
      rfl
    · rw [insertIn_cons_of_lt later, hoistedAll, hoistedAll, ih, insertIn_comm]
      simpa using later.ne'

mutual

/-- To hoist once is enough. -/
theorem hoisted_hoisted : ∀ s : Stmt, s.hoisted.hoisted = s.hoisted
  | .expression .. | .assign .. | .leave .. => rfl
  | .choose line branches otherwise => by
    simp only [hoisted, hoistedBranches_hoistedBranches branches,
      hoistedOtherwise_hoistedOtherwise otherwise]
  | .loop line name items body => by simp only [hoisted, hoistedAll_hoistedAll body]
  | .function line name params body => by simp only [hoisted, hoistedAll_hoistedAll body]

theorem hoistedBranches_hoistedBranches : ∀ branches : List (Expr × List Stmt),
    hoistedBranches (hoistedBranches branches) = hoistedBranches branches
  | [] => rfl
  | (condition, body) :: rest => by
    simp only [hoistedBranches, hoistedAll_hoistedAll body, hoistedBranches_hoistedBranches rest]

theorem hoistedOtherwise_hoistedOtherwise : ∀ otherwise : Option (List Stmt),
    hoistedOtherwise (hoistedOtherwise otherwise) = hoistedOtherwise otherwise
  | none => rfl
  | some body => by simp only [hoistedOtherwise, hoistedAll_hoistedAll body]

theorem hoistedAll_hoistedAll : ∀ block : List Stmt,
    hoistedAll (hoistedAll block) = hoistedAll block
  | [] => rfl
  | s :: rest => by
    rw [hoistedAll, hoistedAll_insertIn, hoistedAll_hoistedAll rest, hoisted_hoisted s]

end

/-- Hoisting a block keeps the order of the declarations of a name, and of the other statements. -/
theorem declaring_hoistedAll (name? : Option String) (block : List Stmt) :
    declaring name? (hoistedAll block) = (declaring name? block).map hoisted := by
  induction block with
  | nil => rfl
  | cons s rest ih =>
    rw [hoistedAll, declaring_insertIn]
    by_cases own : s.declares? = name?
    · subst own
      rw [declaring_self, List.map_cons, ← ih, ← declares?_hoisted, declaring_self]
    · rw [declaring_of_ne own, ← ih, declaring_of_ne (by rwa [declares?_hoisted])]

/-- Hoisting a block leaves out no function and adds none. -/
theorem functions_hoistedAll (block : List Stmt) :
    (functions (hoistedAll block)).Perm ((functions block).map Function.hoisted) := by
  have all : ∀ block : List Stmt, (hoistedAll block).Perm (block.map hoisted) := fun block => by
    induction block with
    | nil => exact .nil
    | cons s rest ih => exact (List.perm_orderedInsert ..).trans (ih.cons _)
  refine ((all block).filterMap _).trans (.of_eq ?_)
  rw [functions, List.filterMap_map, List.map_filterMap]
  exact congrArg (List.filterMap · block) (funext function?_hoisted)

theorem isEmpty_functions_hoistedAll (block : List Stmt) :
    (functions (hoistedAll block)).isEmpty = (functions block).isEmpty := by
  rw [(functions_hoistedAll block).isEmpty_eq, List.isEmpty_map]

/-- A statement that trades places with none of its rank can stand in front. -/
theorem hoistedAll_append_cons {front : List Stmt} {s : Stmt}
    (apart : ∀ t ∈ front, t.declares? ≠ s.declares?) (rest : List Stmt) :
    hoistedAll (front ++ s :: rest) = insertIn (hoistedAll (front ++ rest)) s.hoisted := by
  induction front with
  | nil => rfl
  | cons t front ih =>
    obtain ⟨first, later⟩ := List.forall_mem_cons.1 apart
    rw [List.cons_append, List.cons_append, hoistedAll, hoistedAll, ih later, insertIn_comm]
    rw [rank_hoisted, rank_hoisted]
    exact fun same => first (rank_eq_iff.1 same).symm

/-- The hoisted block tells the declarations of each name and the other statements only. -/
theorem hoistedAll_eq_of_declaring {block block' : List Stmt}
    (same : ∀ name?, declaring name? block = declaring name? block') :
    hoistedAll block = hoistedAll block' := by
  induction block generalizing block' with
  | nil =>
    cases block' with
    | nil => rfl
    | cons t rest =>
      have none := same t.declares?
      rw [declaring_self] at none
      cases none
  | cons s rest ih =>
    have first := same s.declares?
    rw [declaring_self] at first
    obtain ⟨front, back, rfl, apart, -, own⟩ := List.filter_eq_cons_iff.1 first.symm
    have others : ∀ t ∈ front, t.declares? ≠ s.declares? := fun t mem eq =>
      apart t mem (beq_iff_eq.2 eq)
    rw [hoistedAll_append_cons others, hoistedAll, ih]
    intro name?
    by_cases key : s.declares? = name?
    · subst key
      have none : declaring s.declares? front = [] := List.filter_eq_nil_iff.2 apart
      rw [declaring_append, none, List.nil_append]
      exact own.symm
    · have all := same name?
      rwa [declaring_of_ne key, declaring_append, declaring_of_ne key, ← declaring_append] at all

/-- **Moving declarations does not change the hoisted block.** -/
theorem Moved.hoistedAll_eq {block block' : List Stmt} (h : Moved block block') :
    hoistedAll block = hoistedAll block' := by
  induction h with
  | here same => exact hoistedAll_eq_of_declaring same
  | trans _ _ ih ih' => exact ih.trans ih'
  | behind s _ ih => rw [hoistedAll, hoistedAll, ih]
  | function _ _ _ _ _ ih | loop _ _ _ _ _ ih =>
    rw [hoistedAll, hoistedAll, hoisted, hoisted, ih]
  | branch line before after condition _ otherwise rest ih =>
    rw [hoistedAll, hoistedAll, hoisted, hoisted, hoistedBranches_append, hoistedBranches_append,
      hoistedBranches, hoistedBranches, ih]
  | otherwise _ _ _ _ ih =>
    rw [hoistedAll, hoistedAll, hoisted, hoisted, hoistedOtherwise, hoistedOtherwise, ih]

end Stmt

/-- The function of a name is the first declaration of the name. -/
theorem Program.function?_eq_head? (p : Program) (name : String) :
    p.function? name = (Stmt.declaring (some name) p.statements).head?.bind Stmt.function? := by
  unfold function?
  induction p.statements with
  | nil => rfl
  | cons s rest ih =>
    rw [List.findSome?_cons, ih]
    cases declares : s.function? with
    | none =>
      have other : s.declares? ≠ some name := by simp [Stmt.declares?, declares]
      rw [Stmt.declaring_of_ne other]
      rfl
    | some f =>
      have own : s.declares? = some f.name := congrArg (Option.map Function.name) declares
      by_cases same : f.name = name
      · subst same
        rw [← own, Stmt.declaring_self, List.head?_cons, Option.bind_some, declares]
        simp [Option.filter]
      · rw [Stmt.declaring_of_ne (by simpa [own] using same)]
        simp [Option.filter, same]

/-- Programs with the same hoisted block declare the same functions, but for what is in them. -/
theorem Program.function?_hoisted {p p' : Program}
    (same : Stmt.hoistedAll p.statements = Stmt.hoistedAll p'.statements) (name : String) :
    (p.function? name).map Function.hoisted = (p'.function? name).map Function.hoisted := by
  have hoisted : ∀ p : Program, (p.function? name).map Function.hoisted =
      (Stmt.declaring (some name) (Stmt.hoistedAll p.statements)).head?.bind Stmt.function? := by
    intro p
    rw [p.function?_eq_head?, Stmt.declaring_hoistedAll, List.head?_map]
    cases (Stmt.declaring (some name) p.statements).head? with
    | none => rfl
    | some s => exact s.function?_hoisted.symm
  rw [hoisted, hoisted, same]

end SheetScript
