import SheetScript.Proofs.Run.ScopeGraph
import SheetScript.Proofs.Run.Stages

/-!
# The scopes of a run

A run makes a scope for its top level, and one each time that it enters a function: a child of the
scope in which the function was declared. So the graph of its scopes can be read off its log.

* `Deed.parents` are the parents of the scopes of a run, from the functions that it has entered.
* `Regime.lineages` says of the functions in the values of a run that the chain of each leads from
  its scope to the top. `Regime.Allows.reaches`: each deed of such a run makes scopes, binds names
  and assigns them, as a graph can change.
* `Program.scopes_lexical`: the graph of a run is a reachable one, and a reachable graph is lexical.

A run starts with no functions, if the host has none of its own to lend (`Context.HandsOn`). A
function of another run would see scopes of that run, and a look-up in it would be no look-up here.
-/

namespace SheetScript

open Relation

/-! ## The functions in a value -/

namespace Value

/-- A function is in a value, at any depth. -/
inductive Has (f : Closure) : Value → Prop
  | here : Has f (.function f)
  | item {items : List Value} {v : Value} (mem : v ∈ items) (inside : Has f v) :
      Has f (.array items)
  | entry {entries : List (String × Value)} {entry : String × Value} (mem : entry ∈ entries)
      (inside : Has f entry.2) : Has f (.map entries)

/-- The functions in a value are of a kind. -/
def FunctionsAre (kind : Closure → Prop) (v : Value) : Prop := ∀ f, v.Has f → kind f

variable {kind : Closure → Prop}

theorem functionsAre_function {f : Closure} : (function f).FunctionsAre kind ↔ kind f := by
  refine ⟨fun h => h f .here, ?_⟩
  rintro h _ ⟨⟩
  exact h

theorem FunctionsAre.mono {other : Closure → Prop} {v : Value} (h : v.FunctionsAre kind)
    (weaker : ∀ f, kind f → other f) : v.FunctionsAre other :=
  fun f has => weaker f (h f has)

theorem hereditary_functionsAre (kind : Closure → Prop) : Hereditary (FunctionsAre kind) where
  null := nofun
  bool _ := nofun
  number _ := nofun
  string _ := nofun
  chart _ := nofun
  row _ := nofun
  array := by
    refine ⟨fun h v mem f has => h f (.item mem has), fun h f has => ?_⟩
    cases has with
    | item mem inside => exact h _ mem f inside
  map := by
    refine ⟨fun h entry mem f has => h f (.entry mem has), fun h f has => ?_⟩
    cases has with
    | entry mem inside => exact h _ mem f inside

end Value

/-- The host has no functions of the language of its own. Those in a value that it gives are among
those in the values that it was given. -/
def Context.HandsOn (c : Context) : Prop := ∀ kind, c.LendsOnly (Value.FunctionsAre kind)

/-! ## Ancestries -/

/-- The parents of the scopes that a run has made so far. -/
structure Ancestry where
  parents : Parents

/-- A run only makes more scopes. -/
instance : Preorder Ancestry where
  le earlier later := earlier.parents <+: later.parents
  le_refl a := List.prefix_refl a.parents
  le_trans _ _ _ := List.IsPrefix.trans

namespace Ancestry

variable {a b : Ancestry} {chain : Chain}

theorem lineage_of_le (le : a ≤ b) (h : a.parents.Lineage chain) : b.parents.Lineage chain := by
  obtain ⟨more, split⟩ := le
  exact split ▸ h.append more

/-- The ancestry after a function has been entered. -/
def enter (a : Ancestry) (f : Closure) : Ancestry := ⟨a.parents ++ [f.scopes.head?]⟩

end Ancestry

/-- The chains of the functions in the values of a run, and those that its pieces see, lead from a
scope to the top. -/
def Regime.lineages : Regime Ancestry where
  binds _ := True
  fits a := Value.FunctionsAre fun f => a.parents.Lineage f.scopes
  sees a := a.parents.Lineage
  size a := a.parents.length
  enter := Ancestry.enter
  hereditary _ := Value.hereditary_functionsAre _
  builtin _ _ := nofun
  object _ _ := nofun
  declared sees _ _ := Value.functionsAre_function.2 sees
  bindsOnly _ := Stmt.blockBindsOnly_of_forall (fun _ => trivial) _
  fits_of_le le fits := fits.mono fun _ => Ancestry.lineage_of_le le
  sees_of_le := Ancestry.lineage_of_le
  le_enter _ _ := List.prefix_append _ _
  size_enter _ _ := List.length_append
  sees_enter fits := (Value.functionsAre_function.1 fits).enter

/-! ## Deeds -/

/-- To bind a name in the newest scope. -/
theorem Scopes.define_push_self (scopes : Scopes) (bindings : Entries Value) (name : String)
    (value : Value) : Scopes.define (scopes.push bindings) scopes.size name value =
      scopes.push (Entries.insert bindings name value) := by
  refine Array.ext_getElem? fun place => ?_
  rw [Scopes.define, Array.getElem?_modify, Array.getElem?_push, Array.getElem?_push]
  by_cases newest : place = scopes.size
  · rw [if_pos newest.symm, if_pos newest, if_pos newest]
    rfl
  · rw [if_neg (Ne.symm newest), if_neg newest, if_neg newest]

namespace ScopeGraph

variable {parents : Parents} {scopes : Scopes} {chain : Chain}

/-- To declare functions is to bind some names. -/
theorem reaches_declare (h : parents.Lineage chain) (entry : Nat) (functions : List Function) :
    ReflTransGen Step ⟨parents, scopes⟩ ⟨parents, scopes.declare entry chain functions⟩ := by
  obtain ⟨s, outer, rfl, there⟩ := h.exists_cons
  induction functions using List.reverseRecOn with
  | nil => exact .refl
  | append_singleton functions f ih =>
    rw [Scopes.declare_concat]
    exact ih.tail (.define there f.name _)

/-- To make a scope with bindings is to make one without, and to bind the names. -/
theorem reaches_push {s : Nat} (there : s < parents.length) (size : scopes.size = parents.length)
    (pairs : List (String × Value)) :
    ReflTransGen Step ⟨parents, scopes⟩
      ⟨parents ++ [some s], scopes.push (Entries.ofList pairs)⟩ := by
  induction pairs using List.reverseRecOn with
  | nil => exact .single (.child there)
  | append_singleton pairs pair ih =>
    have inside : scopes.size < (parents ++ [some s]).length := by
      rw [size, List.length_append, List.length_singleton]
      exact Nat.lt_add_one _
    have bound : Scopes.define (scopes.push (Entries.ofList pairs)) scopes.size pair.1 pair.2 =
        scopes.push (Entries.ofList (pairs ++ [pair])) := by
      rw [Scopes.define_push_self, Entries.ofList, Entries.ofList, List.foldl_append]
      rfl
    rw [← bound]
    exact ih.tail (.define inside pair.1 pair.2)

end ScopeGraph

namespace Regime

variable {a : Ancestry} {d : Deed} {log : List Deed} {m m' : Machine}

/-- What a deed does to the scopes is a way in which a graph can change. -/
theorem Allows.reaches (h : lineages.Allows a d) (start : lineages.At a d.before) :
    ReflTransGen ScopeGraph.Step ⟨a.parents, d.before.scopes⟩
      ⟨(lineages.next a d).parents, d.after.scopes⟩ := by
  cases h with
  | @own _ step m _ chain admits sees =>
    change ReflTransGen _ _ (ScopeGraph.mk a.parents (step.act.left m).scopes)
    cases admits.scopes with
    | still same =>
      rw [same]
      exact .refl
    | @assign name v _ _ =>
      obtain ⟨s, outer, rfl, there⟩ := sees.exists_cons
      have assigns : (ScopeGraph.mk a.parents m.scopes).Assigns s name v
          (m.scopes.owner (s :: outer) name) ⟨a.parents, m.scopes.assign (s :: outer) name v⟩ :=
        (ScopeGraph.assigns_iff (g := ⟨a.parents, m.scopes⟩) sees).2 ⟨rfl, rfl⟩
      exact .single (.assign there assigns)
    | @declare functions _ =>
      change ReflTransGen _ _ (ScopeGraph.mk a.parents ((Machine.declare _ _).left m).scopes)
      rw [Machine.scopes_declare]
      exact ScopeGraph.reaches_declare sees m.entries functions
  | @enter f args m fits _ =>
    have lineage : a.parents.Lineage f.scopes := Value.functionsAre_function.1 fits
    obtain ⟨s, outer, scopes, there⟩ := lineage.exists_cons
    have child : (lineages.next a (.enter f args m)).parents = a.parents ++ [some s] := by
      change a.parents ++ [f.scopes.head?] = _
      rw [scopes, List.head?_cons]
    rw [child]
    exact ScopeGraph.reaches_push there start.size _

/-- So is what several deeds do. -/
theorem AllowsAll.reaches (h : lineages.AllowsAll a log) (trail : Deed.Trail m log m')
    (start : lineages.At a m) :
    ReflTransGen ScopeGraph.Step ⟨a.parents, m.scopes⟩
      ⟨(lineages.stage a log).parents, m'.scopes⟩ := by
  induction trail generalizing a with
  | nil same =>
    rw [← same.scopes]
    exact .refl
  | @cons m m' d rest same _ ih =>
    have before : lineages.At a d.before := start.of_same same
    have here := h.1.reaches before
    rw [same.scopes] at here
    exact here.trans (ih h.2 (h.1.at_next before))

end Regime

/-! ## Runs -/

/-- The parents of the scopes of a run after some deeds: the top level, and then one scope for each
function that has been entered, a child of the scope in which the function was declared. -/
def Deed.parents (log : List Deed) : Parents :=
  none :: log.filterMap fun
    | .own _ _ => none
    | .enter f _ _ => some f.scopes.head?

theorem Regime.parents_stage (parents : Parents) (log : List Deed) :
    (lineages.stage ⟨parents⟩ log).parents = parents ++ (Deed.parents log).tail := by
  induction log generalizing parents with
  | nil => exact (List.append_nil parents).symm
  | cons d log ih =>
    cases d with
    | own step m => exact ih parents
    | enter f args m =>
      refine (ih (parents ++ [f.scopes.head?])).trans ?_
      rw [List.append_assoc]
      rfl

namespace Program

variable (limits : Limits) (p : Program) (world : World)

/-- The logs of a program in a world, when the arguments of an event have no functions. -/
inductive PlainLogs : List Deed → Prop
  | run : PlainLogs (p.log limits world)
  | event (name : String) {args : List Value}
      (plain : ∀ v ∈ args, v.FunctionsAre fun _ => False) :
      PlainLogs (p.logEvent limits world name args)

variable {limits p world} {log : List Deed}

/-- At the start of a run there are no functions. -/
theorem lineages_start (hands : world.context.HandsOn) :
    Regime.lineages.At ⟨[none]⟩ { world := world } :=
  ⟨⟨.start, fun _ => hands _⟩, rfl⟩

/-- All deeds of a run keep to the regime of lineages. -/
theorem PlainLogs.allows (logs : p.PlainLogs limits world log) (hands : world.context.HandsOn) :
    Regime.lineages.AllowsAll ⟨[none]⟩ log := by
  have only : Stmt.BlockBindsOnly Regime.lineages.binds p.statements :=
    Stmt.blockBindsOnly_of_forall (fun _ => trivial) _
  have calls := Plan.staged_logCall (R := Regime.lineages) limits limits.maxCallDepth
  have top : Regime.lineages.sees ⟨[none]⟩ topLevel := .top rfl
  cases logs with
  | run =>
    exact (Plan.staged_log limits calls (obeys_plan _ limits only _) top
      (lineages_start hands)).allows
  | event name plain =>
    have fit : Regime.lineages.AllFit ⟨[none]⟩ _ := fun v mem =>
      (plain v mem).mono fun _ => False.elim
    exact (Plan.staged_log limits calls (obeys_eventPlan _ limits only name fit) top
      (lineages_start hands)).allows

/-- **The scopes of a run are lexical.** A graph that comes about by making scopes, by binding names
and by assigning them is lexical: each way up ends, and an assignment is seen by those look-ups that
come upon its scope first, and by no others. At each moment of a run, the graph of its scopes is
such a graph, and the chain that each piece of the program sees is the way up from its scope. -/
theorem scopes_lexical (hands : world.context.HandsOn) (logs : p.PlainLogs limits world log)
    {before after : List Deed} (split : log = before ++ after) {m : Machine}
    (trail : Deed.Trail { world := world } before m) :
    (∀ g : ScopeGraph, g.Reachable → g.Lexical) ∧
      ScopeGraph.Reachable ⟨Deed.parents before, m.scopes⟩ ∧
      (Deed.parents before).Lineage topLevel ∧
      ∀ f args t, .enter f args t ∈ before →
        (Deed.parents before).Lineage (t.scopes.size :: f.scopes) := by
  have start := lineages_start hands
  have allows := (Regime.allowsAll_append.1 (split ▸ logs.allows hands)).1
  have stage : (Regime.lineages.stage ⟨[none]⟩ before).parents = Deed.parents before :=
    Regime.parents_stage [none] before
  have reaches := allows.reaches trail start
  rw [stage] at reaches
  refine ⟨fun g => ScopeGraph.Reachable.lexical, ?_, ?_, fun f args t mem => ?_⟩
  · exact (ReflTransGen.single .root).trans reaches
  · exact Parents.Lineage.top List.getElem?_cons_zero
  · have sees := allows.sees_of_mem trail start mem
    rw [← stage]
    exact sees

end Program

/-- A function that declares another one, called twice, and a call of what the first call gave:
```
function place(mark):
    function set(next):
        mark = next
    return set
a = place("x")
b = place("y")
a("z")
```
-/
def marking : Program where
  statements := [
    .function 1 "place" ["mark"] [
      .function 2 "set" ["next"] [.assign 3 (.variable "mark") none (.variable "next")],
      .leave 4 (some (.variable "set"))],
    .assign 5 (.variable "a") none (.call (.variable "place") [.string "x"]),
    .assign 6 (.variable "b") none (.call (.variable "place") [.string "y"]),
    .expression 7 (.call (.variable "a") [.string "z"])]

/-- The last call is a child of the first one, so its assignment is seen from these two scopes. The
second call keeps what it was called with. -/
theorem marking_scopes_lexical :
    ∃ m log, marking.PlainLogs {} ⟨{}, {}⟩ log ∧ Deed.Trail { world := ⟨{}, {}⟩ } log m ∧
      ∀ g : ScopeGraph, g = ⟨[none, some 0, some 0, some 1], m.scopes⟩ → g.Reachable ∧ g.Lexical ∧
        (∃ v, g.Looks 3 "mark" (some v) ∧ v.display = "z") ∧
        (∃ v, g.Looks 1 "mark" (some v) ∧ v.display = "z") ∧
        (∃ v, g.Looks 2 "mark" (some v) ∧ v.display = "y") := by
  have parents : Deed.parents (marking.log {} ⟨{}, {}⟩) = [none, some 0, some 0, some 1] := by
    decide +kernel
  obtain ⟨m, trail, last, first, second⟩ : ∃ m,
      Deed.Trail { world := ⟨{}, {}⟩ } (marking.log {} ⟨{}, {}⟩) m ∧
      (m.scopes.lookup? [3, 1, 0] "mark").map Value.display = some "z" ∧
      (m.scopes.lookup? [1, 0] "mark").map Value.display = some "z" ∧
      (m.scopes.lookup? [2, 0] "mark").map Value.display = some "y" :=
    ⟨_, Program.Logs.run.trail, by decide +kernel, by decide +kernel, by decide +kernel⟩
  have hands : (World.context ⟨{}, {}⟩).HandsOn := fun kind =>
    ⟨fun _ mem => absurd mem List.not_mem_nil, fun _ mem => absurd mem List.not_mem_nil,
      fun _ mem => absurd mem List.not_mem_nil, fun _ mem => absurd mem List.not_mem_nil⟩
  obtain ⟨lexical, reachable, -, -⟩ := Program.scopes_lexical hands .run
    (List.append_nil _).symm trail
  rw [parents] at reachable
  refine ⟨m, _, .run, trail, ?_⟩
  rintro g rfl
  have shows {s : Nat} {outer : Chain} {text : String}
      (lineage : Parents.Lineage [none, some 0, some 0, some 1] (s :: outer))
      (shown : (m.scopes.lookup? (s :: outer) "mark").map Value.display = some text) :
      ∃ v, ScopeGraph.Looks ⟨[none, some 0, some 0, some 1], m.scopes⟩ s "mark" (some v) ∧
        v.display = text := by
    obtain ⟨v, found, shown⟩ := Option.map_eq_some_iff.1 shown
    exact ⟨v, ((lexical _ reachable).looks lineage "mark" (some v)).2 found.symm, shown⟩
  exact ⟨reachable, lexical _ reachable, shows (.child rfl (.child rfl (.top rfl))) last,
    shows (.child rfl (.top rfl)) first, shows (.child rfl (.top rfl)) second⟩

end SheetScript
