import Mathlib.Data.List.Find
import Mathlib.Data.List.Induction
import SheetScript.Proofs.Run.Change

/-!
# The variables of a run

What an assignment to a name changes, and what leaves the variables of a run alone.

* `Scopes.lookup?_assign`, `Scopes.binding?_assign`: an assignment changes the binding that the
  chain sees, and no other.
* `Scopes.binding?_declare`, `Scopes.binding?_declare_of_ne`: of the functions that a block
  declares, the last one of a name is bound, and nothing else.
* `Machine.SameVariables`: the variables that there were are as before; there may be new scopes.
* `Expr.left_eval`: an expression that calls nothing but functions that only look at their arguments
  (`Expr.Steady`) leaves the state of the run exactly as it is.
-/

namespace SheetScript

open Relation Act

/-! ## Assigning to a name -/

namespace Scopes

variable {scopes : Scopes} {chain : Chain} {place : Nat} {name : String} {old value : Value}

theorem lt_size_of_binding? (found : scopes.binding? place name = some value) :
    place < scopes.size := by
  by_contra outside
  rw [binding?, Array.getD_eq_getD_getElem?, Array.getElem?_eq_none (not_lt.1 outside)] at found
  nomatch found

theorem binding?_define (inside : place < scopes.size) (name : String) (value : Value)
    (other : Nat) (n : String) :
    (scopes.define place name value).binding? other n =
      if other = place ∧ n = name then some value else scopes.binding? other n := by
  rw [binding?, binding?, define, Array.getD_eq_getD_getElem?, Array.getD_eq_getD_getElem?,
    Array.getElem?_modify]
  by_cases here : place = other
  · subst other
    rw [if_pos rfl, Array.getElem?_eq_getElem inside, Option.map_some, Option.getD_some,
      Option.getD_some, Entries.find?_insert]
    simp only [true_and]
  · rw [if_neg here, if_neg fun h => here h.1.symm]

/-- To bind a name in a scope leaves other names alone, and other scopes. -/
theorem binding?_define_of_ne {other : Nat} {n : String} (apart : ¬(other = place ∧ n = name)) :
    (scopes.define place name value).binding? other n = scopes.binding? other n := by
  by_cases inside : place < scopes.size
  · rw [binding?_define inside, if_neg apart]
  · have outside : scopes[place]? = none := Array.getElem?_eq_none (not_lt.1 inside)
    rw [binding?, binding?, define, Array.getD_eq_getD_getElem?, Array.getD_eq_getD_getElem?,
      Array.getElem?_modify]
    split_ifs with here
    · rw [← here, outside]
      rfl
    · rfl

theorem size_define (scopes : Scopes) (place : Nat) (name : String) (value : Value) :
    (scopes.define place name value).size = scopes.size := Array.size_modify

theorem size_assign (scopes : Scopes) (chain : Chain) (name : String) (value : Value) :
    (scopes.assign chain name value).size = scopes.size := Array.size_modify

/-- The scope whose binding the chain sees stands in the chain, and none in front of it binds the
name. -/
theorem exists_owner (found : scopes.lookup? chain name = some value) :
    ∃ front back, chain = front ++ scopes.owner chain name :: back ∧
      scopes.binding? (scopes.owner chain name) name = some value ∧
      ∀ place ∈ front, scopes.binding? place name = none := by
  obtain ⟨front, place, back, split, here, before⟩ := List.findSome?_eq_some_iff.1 found
  have first : chain.find? (fun place => (scopes.binding? place name).isSome) = some place := by
    refine List.find?_eq_some_iff_append.2 ⟨by rw [here]; rfl, front, back, split, fun p mem => ?_⟩
    rw [before p mem]
    rfl
  have owner : scopes.owner chain name = place := by rw [Scopes.owner, first, Option.getD_some]
  rw [owner]
  exact ⟨front, back, split, here, before⟩

theorem owner_lt_size (found : scopes.lookup? chain name = some old) :
    scopes.owner chain name < scopes.size :=
  let ⟨_, _, _, here, _⟩ := exists_owner found
  lt_size_of_binding? here

/-- An assignment to a name that the chain sees changes one binding. -/
theorem binding?_assign (found : scopes.lookup? chain name = some old) (value : Value)
    (place : Nat) (n : String) :
    (scopes.assign chain name value).binding? place n =
      if place = scopes.owner chain name ∧ n = name then some value
      else scopes.binding? place n :=
  binding?_define (owner_lt_size found) name value place n

/-- After an assignment to a name that the chain sees, it sees the value assigned. -/
theorem lookup?_assign (found : scopes.lookup? chain name = some old) (value : Value) :
    (scopes.assign chain name value).lookup? chain name = some value := by
  obtain ⟨front, back, split, here, before⟩ := exists_owner found
  refine List.findSome?_eq_some_iff.2
    ⟨front, scopes.owner chain name, back, split, ?_, fun p mem => ?_⟩
  · rw [binding?_assign found, if_pos ⟨rfl, rfl⟩]
  · -- the scopes in front do not bind the name, so none of them is the one assigned to
    have apart : p ≠ scopes.owner chain name := fun eq => by
      have unbound := before p mem
      rw [eq, here] at unbound
      nomatch unbound
    rw [binding?_assign found, if_neg fun h => apart h.1]
    exact before p mem

end Scopes

/-! ## Declaring functions -/

/-- The last item of a kind, with what stands in front of it and behind it. -/
theorem List.split_of_find?_reverse {α : Type} {p : α → Bool} {l : List α} {a : α}
    (found : l.reverse.find? p = some a) :
    p a ∧ ∃ front back, l = front ++ a :: back ∧ ∀ b ∈ back, ¬p b := by
  obtain ⟨kind, back, front, split, others⟩ := List.find?_eq_some_iff_append.1 found
  refine ⟨kind, front.reverse, back.reverse, ?_, fun b mem => ?_⟩
  · rw [← List.reverse_reverse l, split]
    simp
  · simpa using others b (List.mem_reverse.1 mem)

namespace Scopes

/-- The scopes after a block has declared functions. -/
def declare (scopes : Scopes) (entry : Nat) (chain : Chain) (functions : List Function) : Scopes :=
  functions.foldl
    (fun scopes f => scopes.define (chain.head?.getD 0) f.name (.function ⟨entry, f, chain⟩)) scopes

variable {scopes : Scopes} {entry : Nat} {chain : Chain} {functions : List Function}

theorem declare_concat (f : Function) :
    scopes.declare entry chain (functions ++ [f]) =
      (scopes.declare entry chain functions).define (chain.head?.getD 0) f.name
        (.function ⟨entry, f, chain⟩) := by
  rw [declare, List.foldl_append]
  rfl

theorem size_declare : (scopes.declare entry chain functions).size = scopes.size := by
  induction functions using List.reverseRecOn with
  | nil => rfl
  | append_singleton functions f ih => rw [declare_concat, size_define, ih]

theorem All.declare {P : Value → Prop} (h : scopes.All P)
    (fits : ∀ f ∈ functions, P (.function ⟨entry, f, chain⟩)) :
    (scopes.declare entry chain functions).All P := by
  induction functions using List.reverseRecOn with
  | nil => exact h
  | append_singleton functions f ih =>
    rw [declare_concat]
    exact (ih fun g mem => fits g (List.mem_append_left _ mem)).define _ _
      (fits f (List.mem_append_right _ List.mem_cons_self))

/-- A declaration binds no other names, and nothing in other scopes. -/
theorem binding?_declare_of_ne {place : Nat} {name : String}
    (apart : place = chain.head?.getD 0 → ∀ f ∈ functions, f.name ≠ name) :
    (scopes.declare entry chain functions).binding? place name = scopes.binding? place name := by
  induction functions using List.reverseRecOn with
  | nil => rfl
  | append_singleton functions f ih =>
    have other : ¬(place = chain.head?.getD 0 ∧ name = f.name) := fun ⟨here, same⟩ =>
      apart here f (List.mem_append_right _ List.mem_cons_self) same.symm
    rw [declare_concat, binding?_define_of_ne other]
    exact ih fun here g mem => apart here g (List.mem_append_left _ mem)

/-- The last function of a name is the one that is bound. -/
theorem binding?_declare {front back : List Function} {f : Function}
    (inside : chain.head?.getD 0 < scopes.size) (last : ∀ g ∈ back, g.name ≠ f.name) :
    (scopes.declare entry chain (front ++ f :: back)).binding? (chain.head?.getD 0) f.name =
      some (.function ⟨entry, f, chain⟩) := by
  have split : scopes.declare entry chain (front ++ f :: back) =
      ((scopes.declare entry chain front).define (chain.head?.getD 0) f.name
        (.function ⟨entry, f, chain⟩)).declare entry chain back := by
    rw [← declare_concat, declare, declare, declare, ← List.foldl_append, List.append_assoc]
    rfl
  rw [split, binding?_declare_of_ne fun _ => last, binding?_define (size_declare.symm ▸ inside),
    if_pos ⟨rfl, rfl⟩]

end Scopes

theorem Machine.scopes_declare (m : Machine) (chain : Chain) (functions : List Function) :
    ((Machine.declare chain functions).left m).scopes =
      m.scopes.declare m.entries chain functions := by
  unfold Machine.declare
  split_ifs with none
  · rw [List.isEmpty_iff.1 none]
    rfl
  · rfl

/-! ## Leaving the variables alone -/

namespace Machine

/-- The variables of the first state are as before in the second one: the globals of the host, and
the bindings of every scope that there was. New scopes may have been made. -/
structure SameVariables (m m' : Machine) : Prop where
  globals : m'.world.context.globals = m.world.context.globals
  size_le : m.scopes.size ≤ m'.scopes.size
  binding? : ∀ place < m.scopes.size, ∀ name : String,
    m'.scopes.binding? place name = m.scopes.binding? place name

/-- The scopes of a chain exist. -/
def Sees (m : Machine) (chain : Chain) : Prop := ∀ place ∈ chain, place < m.scopes.size

namespace SameVariables

variable {m m' : Machine} {chain : Chain}

protected theorem refl (m : Machine) : m.SameVariables m := ⟨rfl, le_rfl, fun _ _ _ => rfl⟩

theorem lookup?_eq (h : m.SameVariables m') (sees : m.Sees chain) (name : String) :
    m'.scopes.lookup? chain name = m.scopes.lookup? chain name := by
  unfold Scopes.lookup?
  induction chain with
  | nil => rfl
  | cons place rest ih =>
    obtain ⟨inside, others⟩ := List.forall_mem_cons.1 sees
    rw [List.findSome?_cons, List.findSome?_cons, h.binding? place inside, ih others]

theorem owner_eq (h : m.SameVariables m') (sees : m.Sees chain) (name : String) :
    m'.scopes.owner chain name = m.scopes.owner chain name := by
  have same : chain.find? (fun place => (m'.scopes.binding? place name).isSome) =
      chain.find? fun place => (m.scopes.binding? place name).isSome :=
    List.find?_congr fun place mem => by rw [h.binding? place (sees place mem)]
  rw [Scopes.owner, Scopes.owner, same]

end SameVariables

end Machine

/-! ## Expressions that change nothing -/

/-- Whether a built-in function only looks at its arguments. -/
def Builtin.looksOnly : Builtin → Bool
  | subscribe | announce | log | chart => false
  | _ => true

namespace Expr

mutual

/-- The expression calls nothing but built-in functions that only look at their arguments. -/
def Steady : Expr → Prop
  | .number _ | .string _ | .bool _ | .null | .variable _ => True
  | .binary _ left right => left.Steady ∧ right.Steady
  | .logical _ left right => left.Steady ∧ right.Steady
  | .unary _ operand => operand.Steady
  | .call callee args =>
    (∃ name b, callee = .variable name ∧ Builtin.ofName? name = some b ∧ b.looksOnly = true) ∧
      AllSteady args
  | .property object _ => object.Steady
  | .index object position => object.Steady ∧ position.Steady
  | .array items => AllSteady items
  | .map entries => EntriesSteady entries

/-- The expressions of a list are steady. -/
def AllSteady : List Expr → Prop
  | [] => True
  | e :: rest => e.Steady ∧ AllSteady rest

/-- The values of the entries of a map are steady. -/
def EntriesSteady : List (String × Expr) → Prop
  | [] => True
  | (_, e) :: rest => e.Steady ∧ EntriesSteady rest

end

end Expr

theorem Builtin.call_eq_of_looksOnly {b : Builtin} (looks : b.looksOnly = true) (console : Bool)
    (args : List Value) :
    b.call console args = MonadExcept.ofExcept ((b.pure? args).getD (.ok .null)) := by
  cases b with
  | subscribe | announce | log | chart => exact absurd looks Bool.false_ne_true
  | _ => rfl

theorem Machine.goes_onWorld {act : Act World Value} (still : Goes Eq act) :
    Goes Eq (Machine.onWorld act) := by
  intro m
  have same := still m.world
  rw [reflTransGen_eq_self] at same
  rw [onWorld, left_on, ← same]

namespace Expr

variable (rules : Rules) (chain : Chain)

theorem goes_valueOf (name : String) : Goes Eq (valueOf chain name) := by
  unfold valueOf
  split
  · exact goes_pure _
  · refine goes_get_bind fun m => ?_
    split
    · exact goes_pure _ m
    · refine (?_ : Goes Eq (Machine.lookup? chain name >>= _)) m
      refine (goes_get_bind fun m => goes_pure _ m).bind fun found => ?_
      split
      · exact goes_pure _
      · exact goes_throw _

mutual

theorem goes_eval : ∀ e : Expr, e.Steady → Goes Eq (e.eval rules chain)
  | .number _, _ => goes_pure _
  | .string _, _ => goes_pure _
  | .bool _, _ => goes_pure _
  | .null, _ => goes_pure _
  | .variable name, _ => goes_valueOf chain name
  | .binary op left right, h => by
    unfold Steady at h
    unfold eval
    exact (goes_eval left h.1).bind fun _ => (goes_eval right h.2).bind fun _ => goes_ofExcept _
  | .logical op left right, h => by
    unfold Steady at h
    unfold eval
    refine (goes_eval left h.1).bind fun a => ?_
    split
    · exact goes_pure a
    · exact goes_eval right h.2
  | .unary op operand, h => by
    unfold Steady at h
    unfold eval
    exact (goes_eval operand h).bind fun _ => goes_ofExcept _
  | .call callee args, h => by
    unfold Steady at h
    obtain ⟨⟨name, b, rfl, isBuiltin, looks⟩, steady⟩ := h
    have callee : (Expr.variable name).eval rules chain = pure (.builtin b) := by
      rw [eval, valueOf, isBuiltin]
    rw [eval, callee]
    · change Goes Eq (do rules.callValue (.builtin b) (← evalAll rules chain args) _)
      refine (goes_evalAll args steady).bind fun values => ?_
      rw [Rules.callValue, Builtin.call_eq_of_looksOnly looks]
      exact Machine.goes_onWorld (goes_ofExcept _)
    · exact fun object name same => Expr.noConfusion same
  | .property object name, h => by
    unfold Steady at h
    unfold eval
    exact (goes_eval object h).bind fun receiver => goes_get_bind fun m => goes_ofExcept _ m
  | .index object position, h => by
    unfold Steady at h
    unfold eval
    exact (goes_eval object h.1).bind fun _ => (goes_eval position h.2).bind fun _ =>
      goes_ofExcept _
  | .array items, h => by
    unfold Steady at h
    unfold eval
    exact (goes_evalAll items h).bind fun _ => goes_pure _
  | .map entries, h => by
    unfold Steady at h
    unfold eval
    exact (goes_evalEntries entries h).bind fun _ => goes_pure _

theorem goes_evalAll : ∀ es : List Expr, AllSteady es → Goes Eq (evalAll rules chain es)
  | [], _ => goes_pure _
  | e :: rest, h => by
    unfold AllSteady at h
    unfold evalAll
    exact (goes_eval e h.1).bind fun _ => (goes_evalAll rest h.2).bind fun _ => goes_pure _

theorem goes_evalEntries : ∀ es : List (String × Expr), EntriesSteady es →
    Goes Eq (evalEntries rules chain es)
  | [], _ => goes_pure _
  | (key, e) :: rest, h => by
    unfold EntriesSteady at h
    unfold evalEntries
    exact (goes_eval e h.1).bind fun _ => (goes_evalEntries rest h.2).bind fun _ => goes_pure _

end

/-- A steady expression leaves the state of the run as it is. -/
theorem left_eval {e : Expr} (steady : e.Steady) (m : Machine) :
    (e.eval rules chain).left m = m := by
  have path := goes_eval rules chain e steady m
  rw [reflTransGen_eq_self] at path
  exact path.symm

end Expr

end SheetScript
