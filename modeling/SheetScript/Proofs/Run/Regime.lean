import Mathlib.Order.Basic
import SheetScript.Proofs.Run.Log
import SheetScript.Proofs.Run.Naming
import SheetScript.Proofs.Run.Variables

/-!
# What the values of a run are like

A run works with values, and each piece of its program sees a chain of scopes. A regime says what
the values and the chains are like. It may ask for less at a later stage, when more functions have
been entered, but never for more; so what was so once stays so.

* `Regime.Admits` says of a step of its own that it keeps to a regime: all that it does to the
  scopes is to assign a name or to declare functions in the chain, it changes nothing that the host
  lends, and what it gives fits. There is a lemma for each kind of step.
* `Plan.Obeys` says so of the steps of a plan. `Expr.obeys_plan`, `Target.obeys_storePlan` and
  `Stmt.obeys_plan` find it by recursion on the tree.
* `Program.obeys_plan`, `Program.obeys_eventPlan`: the plans of a program.
-/

namespace SheetScript

open Relation Act

/-! ## Regimes -/

/-- What the values of a run and the chains that its pieces see are like, at the stages of the run.
A stage ends when a function is entered. -/
structure Regime (ι : Type) [Preorder ι] where
  /-- The names that the program binds. -/
  binds : String → Prop
  fits : ι → Value → Prop
  sees : ι → Chain → Prop
  /-- How many scopes there are. -/
  size : ι → Nat
  /-- The stage after a function has been entered. -/
  enter : ι → Closure → ι
  hereditary : ∀ i, Value.Hereditary (fits i)
  builtin : ∀ i b, fits i (.builtin b)
  object : ∀ i o, fits i (.object o)
  /-- A function that is declared in a chain fits. -/
  declared : ∀ {i chain f}, sees i chain → f.BindsOnly binds →
    ∀ entry, fits i (.function ⟨entry, f, chain⟩)
  /-- A function that fits binds only these names. -/
  bindsOnly : ∀ {i f}, fits i (.function f) → f.decl.BindsOnly binds
  fits_of_le : ∀ {i j v}, i ≤ j → fits i v → fits j v
  sees_of_le : ∀ {i j chain}, i ≤ j → sees i chain → sees j chain
  le_enter : ∀ i f, i ≤ enter i f
  size_enter : ∀ i f, size (enter i f) = size i + 1
  /-- The body of a function that is entered sees a new scope in front. -/
  sees_enter : ∀ {i f}, fits i (.function f) → sees (enter i f) (size i :: f.scopes)

namespace Regime

variable {ι : Type} [Preorder ι] (R : Regime ι)

/-- The values of a list fit. -/
def AllFit (i : ι) (values : List Value) : Prop := ∀ v ∈ values, R.fits i v

/-- The value with which a call ends fits. -/
def FlowFits (i : ι) : Flow → Prop
  | .next => True
  | .leave v => R.fits i v

/-- The variables of a run, and what the host lends, are as the regime says. -/
structure Holds (i : ι) (m : Machine) : Prop where
  scopes : m.scopes.All (R.fits i)
  lends : ∀ j, m.world.context.LendsOnly (R.fits j)

variable {R} {i : ι} {m m' : Machine}

theorem Holds.of_same (h : R.Holds i m) (scopes : m'.scopes = m.scopes)
    (lent : m.world.SameLent m'.world) : R.Holds i m' :=
  ⟨scopes ▸ h.scopes, fun j => lent.lendsOnly (h.lends j)⟩

/-! ## Steps of their own -/

variable {chain : Chain} {α : Type} {G : α → Prop}

variable (R) in
/-- All that a step can do to the scopes is to assign a name, or to declare functions, in a chain.
The names and the values that it binds are as the regime says. -/
inductive Scoped (i : ι) (chain : Chain) : {α : Type} → OwnStep α → Prop
  | still {α : Type} {step : OwnStep α} (same : ∀ m, (step.act.left m).scopes = m.scopes) :
      Scoped i chain step
  | assign {name : String} {v : Value} (name_binds : R.binds name) (fits : R.fits i v) :
      Scoped i chain (.assign chain name v)
  | declare {functions : List Function}
      (bind : ∀ f ∈ functions, R.binds f.name ∧ f.BindsOnly R.binds) :
      Scoped i chain (.declare chain functions)

/-- A step makes no scopes. -/
theorem Scoped.size_eq {step : OwnStep α} (h : R.Scoped i chain step) (m : Machine) :
    (step.act.left m).scopes.size = m.scopes.size := by
  cases h with
  | still same => rw [same]
  | assign => exact Scopes.size_assign ..
  | declare => exact (congrArg Array.size (m.scopes_declare _ _)).trans Scopes.size_declare

variable (R) in
/-- What is asked of a step in a piece of a program that sees a chain. It changes nothing that the
host lends, and what it gives has a property. -/
structure Admits (i : ι) (chain : Chain) (step : OwnStep α) (G : α → Prop) : Prop where
  scopes : R.Scoped i chain step
  lent : ∀ m : Machine, m.world.SameLent (step.act.left m).world
  gives : ∀ m : Machine, R.Holds i m → Gives step.act m G

namespace Admits

theorem mono {step : OwnStep α} {G' : α → Prop} (h : R.Admits i chain step G)
    (weaker : ∀ a, G a → G' a) : R.Admits i chain step G' :=
  ⟨h.scopes, h.lent, fun m start a m' run => weaker a (h.gives m start a m' run)⟩

/-- A step keeps to the regime. -/
theorem holds {step : OwnStep α} (h : R.Admits i chain step G) (sees : R.sees i chain)
    (start : R.Holds i m) : R.Holds i (step.act.left m) := by
  refine ⟨?_, fun j => (h.lent m).lendsOnly (start.lends j)⟩
  cases h.scopes with
  | still same => exact same m ▸ start.scopes
  | assign _ fits => exact start.scopes.define _ _ fits
  | @declare functions bind =>
    change Scopes.All _ ((Machine.declare chain functions).left m).scopes
    rw [Machine.scopes_declare]
    exact start.scopes.declare fun f mem => R.declared sees (bind f mem).2 _

end Admits

/-- A step that leaves variables and world alone. -/
theorem admits_of_goes {step : OwnStep α} (still : Goes Machine.SameStore step.act)
    (gives : ∀ m : Machine, R.Holds i m → Gives step.act m G) : R.Admits i chain step G := by
  have same : ∀ m : Machine, m.SameStore (step.act.left m) := fun m => by
    have path := still m
    generalize step.act.left m = m' at path ⊢
    induction path with
    | refl => exact .refl m
    | tail _ one ih => exact ih.trans one
  exact ⟨.still fun m => (same m).scopes, fun m => (same m).world ▸ .refl _, gives⟩

theorem admits_give {a : α} (h : G a) : R.Admits i chain (.give a) G :=
  admits_of_goes (goes_pure a) fun _ _ => gives_pure h

theorem admits_ofExcept {result : Except ScriptError α} (h : ∀ a, result = .ok a → G a) :
    R.Admits i chain (.ofExcept result) G :=
  admits_of_goes (goes_ofExcept result) fun _ _ => gives_ofExcept h

theorem admits_error (e : ScriptError) : R.Admits i chain (.ofExcept (.error e)) G :=
  admits_ofExcept fun _ given => by cases given

theorem admits_lookup? (other : Chain) (name : String) :
    R.Admits i chain (.lookup? other name) fun found => ∀ v ∈ found, R.fits i v := by
  refine admits_of_goes (goes_get_bind fun m => goes_pure (m.scopes.lookup? other name) m) ?_
  rintro m start _ _ ⟨⟩ v found
  exact start.scopes.lookup? found

theorem admits_valueOf (other : Chain) (name : String) :
    R.Admits i chain (.valueOf other name) (R.fits i) := by
  have still : Goes Machine.SameStore (Expr.valueOf other name) := fun m => by
    have path := Expr.goes_valueOf other name m
    rw [reflTransGen_eq_self] at path
    exact path ▸ .refl
  refine admits_of_goes still fun m start => ?_
  change Gives (Expr.valueOf other name) m _
  unfold Expr.valueOf
  split
  · exact gives_pure (R.builtin i _)
  · refine gives_get_bind ?_
    split
    next value found =>
      exact gives_pure ((start.lends i).globals _ (Entries.mem_of_find? found))
    next =>
      refine gives_get_bind ?_
      split
      next value found => exact gives_pure (start.scopes.lookup? found)
      next => exact gives_throw _

theorem admits_checkFree (name : String) :
    R.Admits i chain (.checkFree name) fun _ => True :=
  admits_of_goes (goes_get_bind fun m => by
    split_ifs
    · exact goes_throw _ m
    · exact goes_pure _ m) fun _ _ _ _ _ => trivial

theorem admits_assign {name : String} {v : Value} (name_binds : R.binds name)
    (fits : R.fits i v) : R.Admits i chain (.assign chain name v) fun _ => True :=
  ⟨.assign name_binds fits, fun _ => .refl _, fun _ _ _ _ _ => trivial⟩

theorem admits_declare {functions : List Function}
    (bind : ∀ f ∈ functions, R.binds f.name ∧ f.BindsOnly R.binds) :
    R.Admits i chain (.declare chain functions) fun _ => True := by
  refine ⟨.declare bind, fun m => ?_, fun _ _ _ _ _ => trivial⟩
  change m.world.SameLent (left (Machine.declare chain functions) m).world
  unfold Machine.declare
  split <;> exact .refl _

theorem admits_keepValue (v : Value) : R.Admits i chain (.keepValue v) fun _ => True :=
  admits_of_goes (goes_modify fun _ => ⟨rfl, rfl⟩) fun _ _ _ _ _ => trivial

theorem admits_lastValue : R.Admits i chain .lastValue fun _ => True :=
  admits_of_goes (goes_get_bind fun m => goes_pure m.lastValue m) fun _ _ _ _ _ => trivial

theorem admits_setLine (line : Nat) : R.Admits i chain (.setLine line) fun _ => True :=
  admits_of_goes (goes_modify fun _ => ⟨rfl, rfl⟩) fun _ _ _ _ _ => trivial

/-! ### The doors to the world -/

/-- A step on the world. -/
theorem admits_onWorld {step : OwnStep Value} (act : Machine → Act World Value)
    (eq : ∀ m, step.act m = Machine.onWorld (act m) m)
    (goes : ∀ m, ReflTransGen World.Change m.world ((act m).left m.world))
    (gives : ∀ m, R.Holds i m → Gives (act m) m.world (R.fits i)) :
    R.Admits i chain step (R.fits i) := by
  have left_eq : ∀ m, step.act.left m = { m with world := (act m).left m.world } := fun m => by
    rw [left, eq, ← left, Machine.onWorld, left_on]
  refine ⟨.still fun m => ?_, fun m => ?_, fun m start a m' run => ?_⟩
  · rw [left_eq]
  · rw [left_eq]
    exact .of_changes (goes m)
  · rw [eq] at run
    exact gives_on (gives m start) a m' run

theorem admits_builtin (limits : Limits) (b : Builtin) (args : List Value) :
    R.Admits i chain (.builtin limits b args) (R.fits i) :=
  admits_onWorld (fun _ => b.call limits.consoleLog args) (fun _ => rfl)
    (fun m => b.call_changes limits.consoleLog args m.world)
    fun m _ => b.gives_call (R.hereditary i) limits.consoleLog args m.world

variable {args : List Value} (fit : R.AllFit i args)
include fit

theorem admits_native (f : NativeRef) (description : String) :
    R.Admits i chain (.native f args description) (R.fits i) := by
  let act (m : Machine) : Act World Value :=
    (m.world.context.natives[f.place]?).elim (throw (.notCallable description)) fun native =>
      World.onContext (Context.onEffects (native.call args))
  refine admits_onWorld act (fun m => ?_) (fun m => ?_) fun m start => ?_
  · dsimp only [OwnStep.native, act]
    rw [get_bind]
    cases m.world.context.natives[f.place]? with
    | some native => rfl
    | none => rfl
  · dsimp only [act]
    cases found : m.world.context.natives[f.place]? with
    | some native =>
      have lent : m.world.context.Lends (native.call args) :=
        .inl ⟨native, List.mem_of_getElem? found, args, rfl⟩
      exact World.goes_onContext (Context.goes_onEffects lent)
    | none => exact .refl
  · dsimp only [act]
    cases found : m.world.context.natives[f.place]? with
    | some native =>
      have gives : Gives (native.call args) m.world.context.effects (R.fits i) := fun v e run =>
        (start.lends i).natives native (List.mem_of_getElem? found) args fit _ v e run
      rw [Option.elim_some]
      exact gives_on (gives_on gives)
    | none => exact gives_throw _

variable {receiver : Value} (fits : R.fits i receiver)
include fits

theorem admits_method (name : String) :
    R.Admits i chain (.method receiver name args) (R.fits i) :=
  admits_onWorld (fun _ => World.onContext (receiver.callMethod name args)) (fun _ => rfl)
    (fun m => World.goes_onContext (receiver.callMethod_goes name args m.world.context))
    fun _ start => gives_on (Value.gives_callMethod (R.hereditary i) fit fits
      (start.lends i) (R.object i) name)

omit fit

theorem admits_property (name : String) :
    R.Admits i chain (.property receiver name) (R.fits i) :=
  admits_of_goes (goes_get_bind fun m => goes_ofExcept _ m) fun m start =>
    gives_ofExcept (s := m) fun _ given =>
      Value.gives_property (R.hereditary i) fits (start.lends i) name given

end Regime

/-! ## Plans -/

namespace Plan

variable {ι : Type} [Preorder ι] {R : Regime ι} {chain : Chain} {i : ι} {α β : Type}
  {G G' : ι → α → Prop}

/-- What is asked of each step of a plan; what the plan gives has a property at the stage at which
it is given. The functions that it calls, and their arguments, fit. -/
def Obeys (R : Regime ι) (chain : Chain) {α : Type} : ι → Plan α → (ι → α → Prop) → Prop
  | i, own step, G => R.Admits i chain step (G i)
  | i, startBody, G => G i ()
  | i, call f args, G => R.fits i (.function f) ∧ R.AllFit i args ∧
      ∀ j, i ≤ j → ∀ v : Value, R.fits j v → G j v
  | i, atLine _ steps, G => Obeys R chain i steps G
  | i, bind first next, G => Obeys R chain i first fun j a => Obeys R chain j (next a) G

theorem Obeys.mono {p : Plan α} (h : Obeys R chain i p G)
    (weaker : ∀ j, i ≤ j → ∀ a, G j a → G' j a) : Obeys R chain i p G' := by
  induction p generalizing i with
  | own step => exact Regime.Admits.mono h (weaker i le_rfl)
  | startBody => exact weaker i le_rfl () h
  | call f args => exact ⟨h.1, h.2.1, fun j le v fits => weaker j le v (h.2.2 j le v fits)⟩
  | atLine line steps ih => exact ih h weaker
  | bind first next ih ih' =>
    exact ih h fun j le a h => ih' a h fun k le' => weaker k (le.trans le')

theorem Obeys.bind {first : Plan α} {next : α → Plan β} {H : ι → β → Prop}
    (h : Obeys R chain i first G)
    (h' : ∀ j, i ≤ j → ∀ a, G j a → Obeys R chain j (next a) H) :
    Obeys R chain i (first >>= next) H :=
  h.mono h'

/-- A step of its own, and what follows it at the same stage. -/
theorem obeys_own_bind {step : OwnStep α} {next : α → Plan β} {P : α → Prop} {H : ι → β → Prop}
    (h : R.Admits i chain step P) (h' : ∀ a, P a → Obeys R chain i (next a) H) :
    Obeys R chain i (own step >>= next) H :=
  h.mono h'

theorem obeys_pure {a : α} (h : G i a) : Obeys R chain i (pure a : Plan α) G :=
  Regime.admits_give h

theorem obeys_callValue (limits : Limits) {callee : Value} (fits : R.fits i callee)
    {args : List Value} (fit : R.AllFit i args) (description : String) :
    Obeys R chain i (callValue limits callee args description) R.fits := by
  cases callee with
  | function f => exact ⟨fits, fit, fun _ _ _ h => h⟩
  | builtin b => exact Regime.admits_builtin limits b args
  | native f => exact Regime.admits_native fit f description
  | _ => exact Regime.admits_error _

theorem obeys_callMethod (limits : Limits) {receiver : Value} (fits : R.fits i receiver)
    (name : String) {args : List Value} (fit : R.AllFit i args) :
    Obeys R chain i (callMethod limits receiver name args) R.fits := by
  cases receiver with
  | map entries =>
    unfold callMethod
    dsimp only
    cases found : Entries.find? entries name with
    | some f =>
      have fits : R.fits i f := (R.hereditary i).map.1 fits _ (Entries.mem_of_find? found)
      exact obeys_callValue limits fits fit name
    | none => exact Regime.admits_method fit fits name
  | _ => exact Regime.admits_method fit fits name

end Plan

/-! ## Expressions -/

namespace Expr

variable {ι : Type} [Preorder ι] (R : Regime ι) (limits : Limits) (chain : Chain)

mutual

/-- What is asked of the steps of an expression is so. -/
theorem obeys_plan : ∀ (e : Expr) (i : ι), Plan.Obeys R chain i (e.plan limits chain) R.fits
  | .number _, i => by
    unfold plan
    exact Plan.obeys_pure ((R.hereditary i).number _)
  | .string _, i => by
    unfold plan
    exact Plan.obeys_pure ((R.hereditary i).string _)
  | .bool _, i => by
    unfold plan
    exact Plan.obeys_pure ((R.hereditary i).bool _)
  | .null, i => by
    unfold plan
    exact Plan.obeys_pure (R.hereditary i).null
  | .variable name, i => by
    unfold plan
    exact Regime.admits_valueOf chain name
  | .binary op left right, i => by
    unfold plan
    exact (obeys_plan left i).bind fun j _ a ha => (obeys_plan right j).bind fun k le b hb =>
      Regime.admits_ofExcept fun _ given =>
        (R.hereditary k).apply op (R.fits_of_le le ha) hb given
  | .logical op left right, i => by
    unfold plan
    refine (obeys_plan left i).bind fun j _ a ha => ?_
    split
    · exact Plan.obeys_pure ha
    · exact obeys_plan right j
  | .unary op operand, i => by
    unfold plan
    exact (obeys_plan operand i).bind fun j _ a _ =>
      Regime.admits_ofExcept fun _ given => (R.hereditary j).unary op given
  | .call callee args, i => by
    have inner := obeys_plan callee i
    cases callee with
    | property object name =>
      -- a call of a property is a call of a method
      unfold plan
      exact (obeys_plan object i).bind fun j _ receiver fits =>
        (obeys_planAll args j).bind fun k le given fit =>
          Plan.obeys_callMethod limits (R.fits_of_le le fits) name fit
    | _ =>
      unfold plan
      exact inner.bind fun j _ f fits => (obeys_planAll args j).bind fun k le given fit =>
        Plan.obeys_callValue limits (R.fits_of_le le fits) fit _
  | .property object name, i => by
    unfold plan
    exact (obeys_plan object i).bind fun j _ receiver fits => Regime.admits_property fits name
  | .index object position, i => by
    unfold plan
    exact (obeys_plan object i).bind fun j _ container fits =>
      (obeys_plan position j).bind fun k le place _ => Regime.admits_ofExcept fun _ given =>
        (R.hereditary k).get (R.fits_of_le le fits) given
  | .array items, i => by
    unfold plan
    exact (obeys_planAll items i).bind fun j _ values fit =>
      Plan.obeys_pure ((R.hereditary j).array.2 fit)
  | .map entries, i => by
    unfold plan
    exact (obeys_planEntries entries i).bind fun j _ pairs fit =>
      Plan.obeys_pure ((R.hereditary j).map.2 (Value.Hereditary.ofList fit))

theorem obeys_planAll : ∀ (es : List Expr) (i : ι),
    Plan.Obeys R chain i (planAll limits chain es) R.AllFit
  | [], i => by
    unfold planAll
    exact Plan.obeys_pure fun _ mem => absurd mem List.not_mem_nil
  | e :: rest, i => by
    unfold planAll
    exact (obeys_plan e i).bind fun j _ value fits =>
      (obeys_planAll rest j).bind fun k le values fit =>
        Plan.obeys_pure (List.forall_mem_cons.2 ⟨R.fits_of_le le fits, fit⟩)

theorem obeys_planEntries : ∀ (es : List (String × Expr)) (i : ι),
    Plan.Obeys R chain i (planEntries limits chain es)
      fun j pairs => ∀ pair ∈ pairs, R.fits j pair.2
  | [], i => by
    unfold planEntries
    exact Plan.obeys_pure fun _ mem => absurd mem List.not_mem_nil
  | (key, e) :: rest, i => by
    unfold planEntries
    exact (obeys_plan e i).bind fun j _ value fits =>
      (obeys_planEntries rest j).bind fun k le pairs fit =>
        Plan.obeys_pure (List.forall_mem_cons.2 ⟨R.fits_of_le le fits, fit⟩)

end

end Expr

/-! ## Assignments -/

namespace Target

variable {ι : Type} [Preorder ι] (R : Regime ι) (limits : Limits) (chain : Chain)

theorem obeys_storeAtPlan : ∀ (e : Expr) (i : ι) (op : Option Operator) (position : Value)
    {value : Value}, (∀ name ∈ e.root?, R.binds name) → R.fits i value →
      Plan.Obeys R chain i (storeAtPlan limits chain op position value e) R.fits
  | .variable name, i, op, position, value, root, fits => by
    have H := R.hereditary i
    unfold storeAtPlan
    refine Plan.obeys_own_bind (Regime.admits_valueOf chain name) fun container hc => ?_
    refine Regime.admits_ofExcept fun value given => ?_
    have hv : R.fits i value := H.combine (fun _ got => H.get hc got) fits given
    refine Regime.admits_ofExcept fun changed given => ?_
    refine Plan.obeys_own_bind (Regime.admits_checkFree name) fun _ _ => ?_
    exact Plan.obeys_own_bind (Regime.admits_assign (root name rfl) (H.put hc hv given))
      fun _ _ => Plan.obeys_pure hv
  | .index object outer, i, op, position, value, root, fits => by
    unfold storeAtPlan
    refine (Expr.obeys_plan R limits chain (.index object outer) i).bind
      fun j le container hc => ?_
    have H := R.hereditary j
    refine Regime.admits_ofExcept fun value given => ?_
    have hv : R.fits j value :=
      H.combine (fun _ got => H.get hc got) (R.fits_of_le le fits) given
    refine Regime.admits_ofExcept fun changed given => ?_
    have hd : R.fits j changed := H.put hc hv given
    refine (Expr.obeys_plan R limits chain outer j).bind fun k le place _ => ?_
    exact (obeys_storeAtPlan object k none place root (R.fits_of_le le hd)).bind
      fun l le' _ _ => Plan.obeys_pure (R.fits_of_le (le.trans le') hv)
  -- nothing else can be assigned to
  | .number _, _, _, _, _, _, _ | .string _, _, _, _, _, _, _ | .bool _, _, _, _, _, _, _
  | .null, _, _, _, _, _, _ | .binary .., _, _, _, _, _, _ | .logical .., _, _, _, _, _, _
  | .unary .., _, _, _, _, _, _ | .call .., _, _, _, _, _, _ | .property .., _, _, _, _, _, _
  | .array _, _, _, _, _, _, _ | .map _, _, _, _, _, _, _ => by
    unfold storeAtPlan
    exact (Expr.obeys_plan R limits chain _ _).bind fun _ _ container _ =>
      Regime.admits_ofExcept fun _ _ => Regime.admits_ofExcept fun _ _ =>
        Regime.admits_error _

theorem obeys_storePlan (op : Option Operator) {i : ι} {value : Value} (fits : R.fits i value)
    {target : Target} (only : target.BindsOnly R.binds) :
    Plan.Obeys R chain i (target.storePlan limits chain op value) R.fits := by
  rcases target with name | ⟨object, position⟩
  · have H := R.hereditary i
    refine Plan.obeys_own_bind (Regime.admits_checkFree name) fun _ _ =>
      Plan.obeys_own_bind (Regime.admits_lookup? chain name) fun old? ho => ?_
    refine Regime.admits_ofExcept fun value given => ?_
    have hv : R.fits i value := by
      refine H.combine (fun w found => ?_) fits given
      cases old? with
      | none => cases found
      | some old => exact Except.ok.inj found ▸ ho old rfl
    exact Plan.obeys_own_bind (Regime.admits_assign only hv) fun _ _ => Plan.obeys_pure hv
  · exact (Expr.obeys_plan R limits chain position i).bind fun j le position _ =>
      obeys_storeAtPlan R limits chain object j op position only (R.fits_of_le le fits)

end Target

/-! ## Loops -/

namespace Iteration

variable {ι : Type} [Preorder ι] {R : Regime ι} {chain : Chain} {step : Value → Plan Flow}
  (h : ∀ (j : ι) (v : Value), R.fits j v → Plan.Obeys R chain j (step v) R.FlowFits)
include h

theorem obeys_forEachPlan {i : ι} {values : List Value} (fit : R.AllFit i values) :
    Plan.Obeys R chain i (forEachPlan step values) R.FlowFits := by
  induction values generalizing i with
  | nil => exact Plan.obeys_pure trivial
  | cons v rest ih =>
    obtain ⟨fits, fit⟩ := List.forall_mem_cons.1 fit
    refine (h i v fits).bind fun j le flow leaves => ?_
    cases flow with
    | next => exact ih fun w mem => R.fits_of_le le (fit w mem)
    | leave value => exact Plan.obeys_pure leaves

theorem obeys_forCountPlan (i : ι) (start count : Nat) :
    Plan.Obeys R chain i (forCountPlan step start count) R.FlowFits := by
  induction count generalizing i start with
  | zero => exact Plan.obeys_pure trivial
  | succ count ih =>
    refine (h i _ ((R.hereditary i).number _)).bind fun j _ flow leaves => ?_
    cases flow with
    | next => exact ih j (start + 1)
    | leave value => exact Plan.obeys_pure leaves

theorem obeys_plan {i : ι} {v : Value} (fits : R.fits i v) {iteration : Iteration}
    (iterates : ofValue v = .ok iteration) :
    Plan.Obeys R chain i (iteration.plan step) R.FlowFits := by
  obtain ⟨count, rfl⟩ | ⟨values, rfl, fit⟩ := (R.hereditary i).iterate fits iterates
  · exact obeys_forCountPlan h i 0 count
  · exact obeys_forEachPlan h fit

end Iteration

/-! ## Statements -/

namespace Stmt

variable {ι : Type} [Preorder ι] (R : Regime ι) (limits : Limits) (chain : Chain)

theorem admits_declare {block : List Stmt} (only : BlockBindsOnly R.binds block) (i : ι) :
    R.Admits i chain (.declare chain (functions block)) fun _ => True :=
  Regime.admits_declare fun _ mem => bindsOnly_of_mem_functions only mem

mutual

/-- What is asked of the steps of a statement is so, if it binds only names of the regime. -/
theorem obeys_plan : ∀ (stmt : Stmt) (i : ι), stmt.BindsOnly R.binds →
    Plan.Obeys R chain i (stmt.plan limits chain) R.FlowFits
  | .expression line value, i, _ => by
    unfold plan
    exact (Expr.obeys_plan R limits chain value i).bind fun j _ value _ =>
      Plan.obeys_own_bind (Regime.admits_keepValue value) fun _ _ => Plan.obeys_pure trivial
  | .assign line target op value, i, only => by
    unfold BindsOnly at only
    unfold plan
    exact (Expr.obeys_plan R limits chain value i).bind fun j _ value fits =>
      (Target.obeys_storePlan R limits chain op fits only).bind fun k _ value _ =>
        Plan.obeys_own_bind (Regime.admits_keepValue value) fun _ _ => Plan.obeys_pure trivial
  | .choose line branches otherwise, i, only => by
    unfold BindsOnly at only
    unfold plan
    exact obeys_planBranches (fun j => obeys_planOtherwise otherwise j only.2) branches i only.1
  | .loop line name items body, i, only => by
    unfold BindsOnly at only
    unfold plan
    refine (Expr.obeys_plan R limits chain items i).bind fun j _ value fits =>
      Regime.admits_ofExcept fun iteration iterates => ?_
    refine Iteration.obeys_plan (fun k item fits => ?_) fits iterates
    exact Plan.obeys_own_bind (Regime.admits_assign only.1 fits) fun _ _ =>
      Plan.obeys_own_bind (admits_declare R chain only.2 k) fun _ _ =>
        obeys_planAll body k only.2
  | .function _ _ _ _, i, _ => by
    unfold plan
    exact Plan.obeys_pure trivial
  | .leave line value, i, _ => by
    unfold plan
    cases value with
    | some e =>
      exact (Expr.obeys_plan R limits chain e i).bind fun j _ value fits => Plan.obeys_pure fits
    | none => exact Plan.obeys_pure (R.hereditary i).null

theorem obeys_planBranches {last : Plan Flow}
    (h : ∀ j, Plan.Obeys R chain j last R.FlowFits) :
    ∀ (branches : List (Expr × List Stmt)) (i : ι), BranchesBindOnly R.binds branches →
      Plan.Obeys R chain i (planBranches limits chain last branches) R.FlowFits
  | [], i, _ => by
    unfold planBranches
    exact h i
  | (condition, body) :: rest, i, only => by
    unfold BranchesBindOnly at only
    unfold planBranches
    refine (Expr.obeys_plan R limits chain condition i).bind fun j _ value _ => ?_
    split
    · exact Plan.obeys_own_bind (admits_declare R chain only.1 j) fun _ _ =>
        obeys_planAll body j only.1
    · exact obeys_planBranches h rest j only.2

theorem obeys_planOtherwise : ∀ (otherwise : Option (List Stmt)) (i : ι),
    OtherwiseBindsOnly R.binds otherwise →
      Plan.Obeys R chain i (planOtherwise limits chain otherwise) R.FlowFits
  | none, i, _ => by
    unfold planOtherwise
    exact Plan.obeys_pure trivial
  | some body, i, only => by
    unfold OtherwiseBindsOnly at only
    unfold planOtherwise
    exact Plan.obeys_own_bind (admits_declare R chain only i) fun _ _ =>
      obeys_planAll body i only

theorem obeys_planAll : ∀ (block : List Stmt) (i : ι), BlockBindsOnly R.binds block →
    Plan.Obeys R chain i (planAll limits chain block) R.FlowFits
  | [], i, _ => by
    unfold planAll
    exact Plan.obeys_pure trivial
  | stmt :: rest, i, only => by
    unfold BlockBindsOnly at only
    unfold planAll
    refine (obeys_plan stmt i only.1).bind fun j _ flow leaves => ?_
    cases flow with
    | next => exact obeys_planAll rest j only.2
    | leave value => exact Plan.obeys_pure leaves

end

theorem obeys_planBlock {block : List Stmt} (only : BlockBindsOnly R.binds block) (i : ι) :
    Plan.Obeys R chain i (planBlock limits chain block) R.FlowFits :=
  Plan.obeys_own_bind (admits_declare R chain only i) fun _ _ =>
    obeys_planAll R limits chain block i only

end Stmt

/-! ## Programs -/

namespace Program

variable {ι : Type} [Preorder ι] (R : Regime ι) (limits : Limits) {p : Program}

theorem obeys_plan (only : Stmt.BlockBindsOnly R.binds p.statements) (i : ι) :
    Plan.Obeys R topLevel i (p.plan limits) fun _ _ => True := by
  refine (Stmt.obeys_planBlock R limits topLevel only i).bind fun j _ flow _ => ?_
  cases flow with
  | next => exact Regime.admits_lastValue
  | leave v => exact Plan.obeys_pure trivial

theorem obeys_eventPlan (only : Stmt.BlockBindsOnly R.binds p.statements) (name : String) {i : ι}
    {args : List Value} (fit : R.AllFit i args) :
    Plan.Obeys R topLevel i (p.eventPlan limits name args) fun _ _ => True := by
  refine (obeys_plan R limits only i).bind fun j le _ _ =>
    Plan.obeys_own_bind (Regime.admits_lookup? topLevel name) fun found fits => ?_
  have fit : R.AllFit j args := fun v mem => R.fits_of_le le (fit v mem)
  cases found with
  | none => exact Regime.admits_ofExcept fun _ _ => trivial
  | some callee =>
    have calls : Plan.Obeys R topLevel j (Plan.callValue limits callee args name)
        fun _ _ => True :=
      (Plan.obeys_callValue limits (fits callee rfl) fit name).mono fun _ _ _ _ => trivial
    dsimp only
    cases p.function? name with
    | none => exact calls
    | some f => exact Plan.obeys_own_bind (Regime.admits_setLine f.line) fun _ _ => calls

end Program

end SheetScript
