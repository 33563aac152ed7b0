import SheetScript.Proofs.Run.Variables

/-!
# Scopes and their parents

A scope is made at the top, or as a child of a scope that there is. A look-up and an assignment
climb from a scope to its parent, to the parent of that one and so on, until a scope binds the name.
The scopes on the way are the chain that a run carries along.

* `Parents.Lineage` says that a chain is such a way. `Parents.Ordered` says that every scope is
  younger than its parent; then the way up from any scope ends (`Ordered.exists_lineage`).
* `ScopeGraph.Climbs` is the climb, and `ScopeGraph.Looks` and `ScopeGraph.Assigns` are a look-up
  and an assignment by it. Nothing in these definitions makes them end.
* `Scopes.lookup?_define`: which look-ups see that one binding has been changed.
* `ScopeGraph.Step`: how a graph changes. Scopes are made at the top or as a child, and names are
  bound and assigned. `ScopeGraph.Reachable` are the graphs that come about like this.
* `ScopeGraph.Lexical` says what look-ups and assignments come to. `Reachable.lexical`: so it is in
  every reachable graph, since its scopes are younger than their parents.
-/

namespace SheetScript

open Relation

/-! ## Parents -/

/-- The parents of the scopes of a run, in the order in which the scopes were made. -/
abbrev Parents := List (Option Nat)

namespace Parents

variable {parents more : Parents} {chain outer : Chain} {s : Nat}

/-- The chain leads from a scope to the top, each scope being followed by its parent. -/
inductive Lineage (parents : Parents) : Chain → Prop
  | top {s : Nat} (here : parents[s]? = some none) : Lineage parents [s]
  | child {s p : Nat} {outer : Chain} (here : parents[s]? = some (some p))
      (onward : Lineage parents (p :: outer)) : Lineage parents (s :: p :: outer)

/-- Every scope is younger than its parent. -/
def Ordered (parents : Parents) : Prop := ∀ s p : Nat, parents[s]? = some (some p) → p < s

theorem Lineage.append (h : Lineage parents chain) (more : Parents) :
    Lineage (parents ++ more) chain := by
  have old {s : Nat} {parent : Option Nat} (here : parents[s]? = some parent) :
      (parents ++ more)[s]? = some parent :=
    (List.getElem?_append_left (List.getElem?_eq_some_iff.1 here).1).trans here
  induction h with
  | top here => exact .top (old here)
  | child here _ ih => exact .child (old here) ih

theorem Lineage.lt_length (h : Lineage parents (s :: outer)) : s < parents.length := by
  cases h with
  | top here => exact (List.getElem?_eq_some_iff.1 here).1
  | child here _ => exact (List.getElem?_eq_some_iff.1 here).1

theorem Lineage.exists_cons (h : Lineage parents chain) :
    ∃ s outer, chain = s :: outer ∧ s < parents.length := by
  cases h with
  | top here => exact ⟨_, _, rfl, Lineage.lt_length (.top here)⟩
  | child here onward => exact ⟨_, _, rfl, Lineage.lt_length (.child here onward)⟩

/-- A child of a scope that there is. -/
theorem Lineage.enter (h : Lineage parents chain) :
    Lineage (parents ++ [chain.head?]) (parents.length :: chain) := by
  have here : (parents ++ [chain.head?])[parents.length]? = some chain.head? :=
    List.getElem?_concat_length
  cases h with
  | top top => exact .child here ((Lineage.top top).append _)
  | child up onward => exact .child here ((Lineage.child up onward).append _)

/-- A new scope, at the top or as a child. -/
theorem Ordered.concat (ordered : Ordered parents) {parent : Option Nat}
    (older : ∀ p ∈ parent, p < parents.length) : Ordered (parents ++ [parent]) := by
  intro s p here
  obtain old | rfl | outside := lt_trichotomy s parents.length
  · rw [List.getElem?_append_left old] at here
    exact ordered s p here
  · rw [List.getElem?_concat_length] at here
    exact older p (Option.some.inj here)
  · have beyond : (parents ++ [parent]).length ≤ s := by
      rw [List.length_append, List.length_singleton]
      exact outside
    rw [List.getElem?_eq_none beyond] at here
    nomatch here

/-- **The way up from a scope ends**, since it comes to older scopes only. -/
theorem Ordered.exists_lineage (ordered : Ordered parents) (inside : s < parents.length) :
    ∃ outer, Lineage parents (s :: outer) := by
  induction s using Nat.strongRecOn with
  | ind s ih =>
    have here := List.getElem?_eq_getElem inside
    cases parent : parents[s] with
    | none => exact ⟨[], .top (here.trans (congrArg some parent))⟩
    | some p =>
      rw [parent] at here
      have older := ordered s p here
      obtain ⟨outer, onward⟩ := ih p older (older.trans inside)
      exact ⟨p :: outer, .child here onward⟩

end Parents

/-! ## Look-ups after a change -/

namespace Scopes

variable {scopes : Scopes} {w : Nat}

/-- The first scope of a chain that binds a name. -/
def binder? (scopes : Scopes) (chain : Chain) (name : String) : Option Nat :=
  chain.find? fun s => (scopes.binding? s name).isSome

theorem lookup?_eq_bind (scopes : Scopes) (chain : Chain) (name : String) :
    scopes.lookup? chain name =
      (scopes.binder? chain name).bind fun s => scopes.binding? s name := by
  induction chain with
  | nil => rfl
  | cons s outer ih =>
    rw [lookup?, binder?, List.findSome?_cons, List.find?_cons]
    cases here : scopes.binding? s name with
    | some v => exact here.symm
    | none => exact ih

/-- **What a changed binding does to a look-up.** It is seen where the look-up is for that name and
comes upon its scope first; nothing else is seen to have changed. -/
theorem lookup?_define (inside : w < scopes.size) (name : String) (value : Value) (chain : Chain)
    (n : String) : (scopes.define w name value).lookup? chain n =
      if n = name ∧ (scopes.define w name value).binder? chain name = some w then some value
      else scopes.lookup? chain n := by
  by_cases same : n = name
  · subst same
    simp only [true_and]
    induction chain with
    | nil => rfl
    | cons s outer ih =>
      have after := binding?_define inside n value s n
      by_cases here : s = w
      · subst here
        rw [if_pos ⟨rfl, rfl⟩] at after
        have first : (scopes.define s n value).binder? (s :: outer) n = some s := by
          rw [binder?, List.find?_cons, after]
          rfl
        rw [if_pos first, lookup?, List.findSome?_cons, after]
      · rw [if_neg fun h => here h.1] at after
        rw [lookup?, lookup?, binder?, List.findSome?_cons, List.findSome?_cons, List.find?_cons,
          after]
        cases scopes.binding? s n with
        | some old => exact (if_neg fun eq => here (Option.some.inj eq)).symm
        | none => exact ih
  · rw [if_neg fun h => same h.1, lookup?, lookup?]
    congr 1
    funext s
    exact binding?_define_of_ne fun h => same h.2

end Scopes

/-! ## Graphs -/

/-- The scopes of a run with their parents. -/
structure ScopeGraph where
  parents : Parents
  scopes : Scopes

namespace ScopeGraph

variable {g : ScopeGraph} {chain outer : Chain} {s w : Nat} {name : String} {value : Value}

/-- Climb to the first scope that binds a name, from a scope or from above the top. -/
inductive Climbs (g : ScopeGraph) (name : String) : Option Nat → Option Nat → Prop
  | top : Climbs g name none none
  | here {s : Nat} (bound : (g.scopes.binding? s name).isSome) : Climbs g name (some s) (some s)
  | up {s : Nat} {found : Option Nat} (unbound : ¬(g.scopes.binding? s name).isSome)
      (onward : Climbs g name (g.parents.getD s none) found) : Climbs g name (some s) found

/-- A look-up of a name from a scope gives the value at the first scope that binds it. -/
def Looks (g : ScopeGraph) (s : Nat) (name : String) (value? : Option Value) : Prop :=
  ∃ found, g.Climbs name (some s) found ∧
    value? = found.bind fun t => g.scopes.binding? t name

/-- The graph with a name bound in a scope. -/
def define (g : ScopeGraph) (s : Nat) (name : String) (value : Value) : ScopeGraph :=
  { g with scopes := g.scopes.define s name value }

/-- An assignment to a name from a scope changes the binding in the scope `w`: the first one that
binds the name, or else the scope itself. -/
def Assigns (g : ScopeGraph) (s : Nat) (name : String) (value : Value) (w : Nat)
    (g' : ScopeGraph) : Prop :=
  ∃ found, g.Climbs name (some s) found ∧ w = found.getD s ∧ g' = g.define w name value

theorem Climbs.eq {start found other : Option Nat} (h : g.Climbs name start found)
    (h' : g.Climbs name start other) : other = found := by
  induction h with
  | top => cases h' with | top => rfl
  | here bound =>
    cases h' with
    | here => rfl
    | up unbound _ => exact absurd bound unbound
  | up unbound _ ih =>
    cases h' with
    | here bound => exact absurd bound unbound
    | up _ onward => exact ih onward

/-- The climb along a chain comes to the first scope of the chain that binds the name. -/
theorem climbs_of_lineage (h : g.parents.Lineage chain) (name : String) :
    g.Climbs name chain.head? (g.scopes.binder? chain name) := by
  have parent {s : Nat} {parent : Option Nat} (here : g.parents[s]? = some parent) :
      g.parents.getD s none = parent := by
    rw [List.getD_eq_getElem?_getD, here, Option.getD_some]
  induction h with
  | @top s here =>
    rw [Scopes.binder?, List.find?_cons]
    cases bound : (g.scopes.binding? s name).isSome with
    | true => exact .here bound
    | false =>
      refine .up (Bool.eq_false_iff.1 bound) ?_
      rw [parent here]
      exact .top
  | @child s p outer here _ ih =>
    rw [Scopes.binder?, List.find?_cons]
    cases bound : (g.scopes.binding? s name).isSome with
    | true => exact .here bound
    | false =>
      refine .up (Bool.eq_false_iff.1 bound) ?_
      rw [parent here]
      exact ih

variable (h : g.parents.Lineage (s :: outer))
include h

theorem climbs_iff {found : Option Nat} :
    g.Climbs name (some s) found ↔ found = g.scopes.binder? (s :: outer) name :=
  ⟨(climbs_of_lineage h name).eq, fun eq => eq ▸ climbs_of_lineage h name⟩

/-- A look-up comes to what it comes to along the chain. -/
theorem looks_iff {value? : Option Value} :
    g.Looks s name value? ↔ value? = g.scopes.lookup? (s :: outer) name := by
  simp only [Looks, climbs_iff h, exists_eq_left, Scopes.lookup?_eq_bind]

/-- So does an assignment. -/
theorem assigns_iff {g' : ScopeGraph} : g.Assigns s name value w g' ↔
    w = g.scopes.owner (s :: outer) name ∧
      g' = { g with scopes := g.scopes.assign (s :: outer) name value } := by
  simp only [Assigns, climbs_iff h, exists_eq_left]
  refine and_congr_right ?_
  rintro rfl
  exact Iff.rfl

omit h

/-- What the look-ups and the assignments of a graph come to. -/
structure Lexical (g : ScopeGraph) : Prop where
  /-- The way up from every scope ends. -/
  finite : ∀ s < g.parents.length, ∃ outer, g.parents.Lineage (s :: outer)
  /-- So a look-up ends, with what the chain gives. -/
  looks : ∀ {s outer}, g.parents.Lineage (s :: outer) → ∀ name value?,
    g.Looks s name value? ↔ value? = g.scopes.lookup? (s :: outer) name
  /-- So does an assignment. -/
  assigns : ∀ {s outer}, g.parents.Lineage (s :: outer) → ∀ name value w g',
    g.Assigns s name value w g' ↔ w = g.scopes.owner (s :: outer) name ∧
      g' = { g with scopes := g.scopes.assign (s :: outer) name value }
  /-- After an assignment, the look-ups of its name that come upon the changed scope first give the
  value assigned. -/
  seen : ∀ {e name value w g'}, e < g.parents.length → g.Assigns e name value w g' →
    ∀ s < g.parents.length, g'.Climbs name (some s) (some w) → g'.Looks s name (some value)
  /-- All others give what they gave before. -/
  unseen : ∀ {e name value w g'}, e < g.parents.length → g.Assigns e name value w g' →
    ∀ s < g.parents.length, ∀ n, ¬(n = name ∧ g'.Climbs name (some s) (some w)) →
      ∀ value?, g'.Looks s n value? ↔ g.Looks s n value?

/-- The scope that an assignment changes is there. -/
theorem Assigns.lt_length (size : g.scopes.size = g.parents.length) {e : Nat} {g' : ScopeGraph}
    (inside : e < g.parents.length) (assigns : g.Assigns e name value w g') :
    w < g.scopes.size := by
  obtain ⟨found, climbs, rfl, -⟩ := assigns
  cases found with
  | none => exact size ▸ inside
  | some t =>
    have bound : ∀ {start found : Option Nat}, g.Climbs name start found → ∀ t ∈ found,
        (g.scopes.binding? t name).isSome := by
      intro start found climbs
      induction climbs with
      | top => nofun
      | here bound =>
        rintro t ⟨⟩
        exact bound
      | up _ _ ih => exact ih
    obtain ⟨v, here⟩ := Option.isSome_iff_exists.1 (bound climbs t rfl)
    exact Scopes.lt_size_of_binding? here

/-- After an assignment, a look-up gives the value assigned if it is for that name and comes upon
the changed scope first, and else what it gave before. -/
theorem Assigns.looks_iff (size : g.scopes.size = g.parents.length) {e : Nat} {g' : ScopeGraph}
    (inside : e < g.parents.length) (assigns : g.Assigns e name value w g')
    (h : g.parents.Lineage (s :: outer)) (n : String) (value? : Option Value) :
    g'.Looks s n value? ↔ value? =
      if n = name ∧ g'.scopes.binder? (s :: outer) name = some w then some value
      else g.scopes.lookup? (s :: outer) n := by
  have there := assigns.lt_length size inside
  obtain ⟨found, -, -, rfl⟩ := assigns
  have same : (g.define w name value).parents.Lineage (s :: outer) := h
  rw [ScopeGraph.looks_iff same, define, Scopes.lookup?_define there]

/-- There is a parent for each scope, and it is older than the scope. -/
structure Grown (g : ScopeGraph) : Prop where
  size : g.scopes.size = g.parents.length
  ordered : g.parents.Ordered

/-- **A graph whose scopes are younger than their parents is lexical.** -/
theorem Grown.lexical (grown : g.Grown) : g.Lexical where
  finite _ inside := grown.ordered.exists_lineage inside
  looks h _ _ := looks_iff h
  assigns h _ _ _ _ := assigns_iff h
  seen {e name value w g'} inside assigns s there climbs := by
    obtain ⟨outer, h⟩ := grown.ordered.exists_lineage there
    have same : g'.parents.Lineage (s :: outer) := by
      obtain ⟨_, -, -, rfl⟩ := assigns
      exact h
    rw [assigns.looks_iff grown.size inside h, if_pos ⟨rfl, ((climbs_iff same).1 climbs).symm⟩]
  unseen {e name value w g'} inside assigns s there n apart value? := by
    obtain ⟨outer, h⟩ := grown.ordered.exists_lineage there
    have same : g'.parents.Lineage (s :: outer) := by
      obtain ⟨_, -, -, rfl⟩ := assigns
      exact h
    rw [assigns.looks_iff grown.size inside h, looks_iff h,
      if_neg fun here => apart ⟨here.1, (climbs_iff same).2 here.2.symm⟩]

/-! ## How graphs grow -/

/-- A new scope that binds nothing. -/
def push (g : ScopeGraph) (parent : Option Nat) : ScopeGraph :=
  ⟨g.parents ++ [parent], g.scopes.push []⟩

/-- A change of a graph. -/
inductive Step : ScopeGraph → ScopeGraph → Prop
  /-- A scope is made at the top. -/
  | root {g : ScopeGraph} : Step g (g.push none)
  /-- A scope is made as a child of one that there is. -/
  | child {g : ScopeGraph} {s : Nat} (there : s < g.parents.length) : Step g (g.push (some s))
  /-- A name is bound in a scope. -/
  | define {g : ScopeGraph} {s : Nat} (there : s < g.parents.length) (name : String)
      (value : Value) : Step g (g.define s name value)
  /-- A name is assigned from a scope. -/
  | assign {g g' : ScopeGraph} {s w : Nat} {name : String} {value : Value}
      (there : s < g.parents.length) (assigns : g.Assigns s name value w g') : Step g g'

/-- A graph comes about from no scopes at all. -/
def Reachable (g : ScopeGraph) : Prop := ReflTransGen Step ⟨[], #[]⟩ g

theorem Grown.push (grown : g.Grown) {parent : Option Nat}
    (older : ∀ p ∈ parent, p < g.parents.length) : (g.push parent).Grown := by
  refine ⟨?_, grown.ordered.concat older⟩
  rw [ScopeGraph.push, Array.size_push, List.length_append, grown.size, List.length_singleton]

theorem Grown.define (grown : g.Grown) (s : Nat) (name : String) (value : Value) :
    (g.define s name value).Grown :=
  ⟨(Scopes.size_define ..).trans grown.size, grown.ordered⟩

/-- A change keeps the parents older than their children. -/
theorem Step.grown {g' : ScopeGraph} (step : Step g g') (grown : g.Grown) : g'.Grown := by
  cases step with
  | root => exact grown.push nofun
  | child there =>
    refine grown.push ?_
    rintro p ⟨⟩
    exact there
  | define _ name value => exact grown.define _ name value
  | assign _ assigns =>
    obtain ⟨_, -, -, rfl⟩ := assigns
    exact grown.define _ _ _

theorem Reachable.grown (h : g.Reachable) : g.Grown := by
  induction h with
  | refl => exact ⟨rfl, fun _ _ here => nomatch here⟩
  | tail _ step ih => exact step.grown ih

/-- **A reachable graph is lexical.** -/
theorem Reachable.lexical (h : g.Reachable) : g.Lexical := h.grown.lexical

end ScopeGraph

end SheetScript
