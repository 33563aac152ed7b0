import SheetScript.Proofs.Run.Termination

/-!
# The worlds that a run passes

A run shows its world at its end only. To watch it is to carry out its plan and to write down the
world after each step of its own, in order; a loop body that starts and a call leave the world to
the steps inside.

* `Plan.watch` and `Plan.watchCall` carry out a plan and a call in this way, and
  `Program.watch`, `Program.watchEvent` a program. `Program.watch_eq` and `Program.watchEvent_eq`:
  a run that is watched comes to the same.
* `World.Doors` asks of a relation that each of the doors through which a program touches its world
  goes along it. `Program.ends_watch` and `Program.ends_watchEvent`: then a run goes along it from
  each world that it passes to the next (`World.Trail`).
-/

namespace SheetScript

open Act

/-! ## Trails -/

/-- The worlds passed on the way from a world to another, each related to the next. -/
inductive World.Trail (R : World → World → Prop) : World → List World → World → Prop
  | nil (w : World) : Trail R w [] w
  | cons {w next last : World} {rest : List World} (step : R w next)
      (onward : Trail R next rest last) : Trail R w (next :: rest) last

namespace World.Trail

variable {R : World → World → Prop} {u v w : World} {passed more : List World}

theorem single (step : R u v) : Trail R u [v] v := .cons step (.nil v)

theorem append (h : Trail R u passed v) (h' : Trail R v more w) :
    Trail R u (passed ++ more) w := by
  induction h with
  | nil => exact h'
  | cons step _ ih => exact .cons step (ih h')

end World.Trail

/-! ## Steps along a relation -/

theorem Act.left_get_bind {σ α : Type} (f : σ → Act σ α) (s : σ) :
    (get >>= f).left s = (f s).left s := rfl

/-- Each of the doors through which a program touches its world goes along a relation; so does a
step that leaves the world as it is. -/
structure World.Doors (R : World → World → Prop) : Prop where
  same : ∀ w, R w w
  builtin : ∀ (b : Builtin) (console : Bool) (args : List Value) (w : World),
    R w ((b.call console args).left w)
  native : ∀ w : World, ∀ f ∈ w.context.natives, ∀ args : List Value,
    R w ((World.onContext (Context.onEffects (f.call args))).left w)
  method : ∀ (receiver : Value) (name : String) (args : List Value) (w : World),
    R w ((World.onContext (receiver.callMethod name args)).left w)

namespace OwnStep

variable {R : World → World → Prop} {α : Type}

/-- A step goes along a relation. -/
def Along (R : World → World → Prop) (step : OwnStep α) : Prop :=
  ∀ m, R m.world (step.act.left m).world

/-- Two states have the same world. -/
def SameWorld (m m' : Machine) : Prop := m'.world = m.world

theorem along_of_goes (doors : World.Doors R) {step : OwnStep α} (h : Goes SameWorld step.act) :
    step.Along R := by
  intro m
  have path := h m
  have same : (step.act.left m).world = m.world := by
    generalize step.act.left m = m' at path
    induction path with
    | refl => rfl
    | tail _ step ih => exact step.trans ih
  rw [same]
  exact doors.same _

theorem along_onWorld {act : Act World α} {m : Machine} (h : R m.world (act.left m.world)) :
    R m.world ((Machine.onWorld act).left m).world := by
  rw [Machine.onWorld, left_on]
  exact h

variable (doors : World.Doors R)
include doors

theorem along_give (a : α) : (give a).Along R := along_of_goes doors (goes_pure a)

theorem along_ofExcept (result : Except ScriptError α) : (ofExcept result).Along R :=
  along_of_goes doors (goes_ofExcept result)

theorem along_lookup? (chain : Chain) (name : String) : (lookup? chain name).Along R :=
  along_of_goes doors (goes_get_bind fun m => goes_pure (m.scopes.lookup? chain name) m)

theorem along_valueOf (chain : Chain) (name : String) : (valueOf chain name).Along R := by
  refine along_of_goes doors ?_
  change Goes SameWorld (Expr.valueOf chain name)
  unfold Expr.valueOf
  split
  · exact goes_pure _
  · refine goes_get_bind fun m => ?_
    split
    · exact goes_pure _ m
    · refine Goes.bind (goes_get_bind fun m => goes_pure _ m) (fun found => ?_) m
      split
      · exact goes_pure _
      · exact goes_throw _

theorem along_checkFree (name : String) : (checkFree name).Along R :=
  along_of_goes doors (goes_get_bind fun m => by
    split
    · exact goes_throw _ m
    · exact goes_pure _ m)

theorem along_assign (chain : Chain) (name : String) (value : Value) :
    (assign chain name value).Along R := along_of_goes doors (goes_modify fun _ => rfl)

theorem along_declare (chain : Chain) (functions : List Function) :
    (declare chain functions).Along R := by
  refine along_of_goes doors ?_
  change Goes SameWorld (Machine.declare chain functions)
  unfold Machine.declare
  split
  · exact goes_pure _
  · exact goes_modify fun _ => rfl

theorem along_keepValue (value : Value) : (keepValue value).Along R :=
  along_of_goes doors (goes_modify fun _ => rfl)

theorem along_lastValue : lastValue.Along R :=
  along_of_goes doors (goes_get_bind fun m => goes_pure m.lastValue m)

theorem along_setLine (line : Nat) : (setLine line).Along R :=
  along_of_goes doors (goes_modify fun _ => rfl)

theorem along_builtin (limits : Limits) (b : Builtin) (args : List Value) :
    (builtin limits b args).Along R := fun m => along_onWorld (doors.builtin b _ args m.world)

theorem along_native (f : NativeRef) (args : List Value) (description : String) :
    (native f args description).Along R := by
  intro m
  change R m.world (left (get >>= _) m).world
  rw [left_get_bind]
  split
  next native found =>
    exact along_onWorld (doors.native _ native (List.mem_of_getElem? found) args)
  next => exact doors.same _

theorem along_method (receiver : Value) (name : String) (args : List Value) :
    (method receiver name args).Along R :=
  fun m => along_onWorld (doors.method receiver name args m.world)

theorem along_property (receiver : Value) (name : String) : (property receiver name).Along R :=
  along_of_goes doors (goes_get_bind fun m => goes_ofExcept _ m)

end OwnStep

/-! ## Plans along a relation -/

namespace Plan

variable {R : World → World → Prop} {α β : Type}

/-- Each step of its own in a plan goes along a relation. -/
def Each (R : World → World → Prop) {α : Type} : Plan α → Prop
  | own step => step.Along R
  | startBody => True
  | call _ _ => True
  | atLine _ steps => steps.Each R
  | bind first next => first.Each R ∧ ∀ a, (next a).Each R

variable (doors : World.Doors R)
include doors

theorem each_pure (a : α) : (pure a : Plan α).Each R := OwnStep.along_give doors a

theorem each_callValue (limits : Limits) (callee : Value) (args : List Value)
    (description : String) : (callValue limits callee args description).Each R := by
  cases callee with
  | function f => trivial
  | builtin b => exact OwnStep.along_builtin doors limits b args
  | native f => exact OwnStep.along_native doors f args description
  | _ => exact OwnStep.along_ofExcept doors _

theorem each_callMethod (limits : Limits) (receiver : Value) (name : String)
    (args : List Value) : (callMethod limits receiver name args).Each R := by
  cases receiver with
  | map entries =>
    unfold callMethod
    dsimp only
    cases Entries.find? entries name with
    | some f => exact each_callValue doors limits f args name
    | none => exact OwnStep.along_method doors _ name args
  | _ => exact OwnStep.along_method doors _ name args

end Plan

namespace Expr

variable {R : World → World → Prop} (doors : World.Doors R) (limits : Limits) (chain : Chain)
include doors

mutual

theorem each_plan : ∀ e : Expr, (e.plan limits chain).Each R
  | .number _ | .string _ | .bool _ | .null => by
    unfold plan
    exact Plan.each_pure doors _
  | .variable name => by
    unfold plan
    exact OwnStep.along_valueOf doors chain name
  | .binary op left right => by
    unfold plan
    exact ⟨each_plan left, fun a => ⟨each_plan right, fun b => OwnStep.along_ofExcept doors _⟩⟩
  | .logical op left right => by
    unfold plan
    refine ⟨each_plan left, fun a => ?_⟩
    dsimp only
    split
    · exact Plan.each_pure doors a
    · exact each_plan right
  | .unary op operand => by
    unfold plan
    exact ⟨each_plan operand, fun a => OwnStep.along_ofExcept doors _⟩
  | .call callee args => by
    have inner := each_plan callee
    have values := each_planAll args
    cases callee with
    | property object name =>
      -- a call of a property is a call of a method
      unfold plan
      exact ⟨each_plan object, fun receiver => ⟨values, fun given =>
        Plan.each_callMethod doors limits receiver name given⟩⟩
    | _ =>
      unfold plan
      exact ⟨inner, fun f => ⟨values, fun given => Plan.each_callValue doors limits f given _⟩⟩
  | .property object name => by
    unfold plan
    exact ⟨each_plan object, fun receiver => OwnStep.along_property doors receiver name⟩
  | .index object position => by
    unfold plan
    exact ⟨each_plan object, fun container => ⟨each_plan position, fun place =>
      OwnStep.along_ofExcept doors _⟩⟩
  | .array items => by
    unfold plan
    exact ⟨each_planAll items, fun values => Plan.each_pure doors _⟩
  | .map entries => by
    unfold plan
    exact ⟨each_planEntries entries, fun values => Plan.each_pure doors _⟩

theorem each_planAll : ∀ es : List Expr, (planAll limits chain es).Each R
  | [] => by
    unfold planAll
    exact Plan.each_pure doors _
  | e :: rest => by
    unfold planAll
    exact ⟨each_plan e, fun value => ⟨each_planAll rest, fun values => Plan.each_pure doors _⟩⟩

theorem each_planEntries : ∀ es : List (String × Expr), (planEntries limits chain es).Each R
  | [] => by
    unfold planEntries
    exact Plan.each_pure doors _
  | (key, e) :: rest => by
    unfold planEntries
    exact ⟨each_plan e, fun value => ⟨each_planEntries rest, fun values =>
      Plan.each_pure doors _⟩⟩

end

end Expr

namespace Target

variable {R : World → World → Prop} (doors : World.Doors R) (limits : Limits) (chain : Chain)
include doors

theorem each_storeAtPlan : ∀ (e : Expr) (op : Option Operator) (position value : Value),
    (storeAtPlan limits chain op position value e).Each R
  | .variable name, op, position, value => by
    unfold storeAtPlan
    exact ⟨OwnStep.along_valueOf doors chain name, fun container =>
      ⟨OwnStep.along_ofExcept doors _, fun value => ⟨OwnStep.along_ofExcept doors _, fun put =>
        ⟨OwnStep.along_checkFree doors name, fun _ => ⟨OwnStep.along_assign doors chain name put,
          fun _ => Plan.each_pure doors value⟩⟩⟩⟩⟩
  | .index object outer, op, position, value => by
    unfold storeAtPlan
    exact ⟨Expr.each_plan doors limits chain _, fun container =>
      ⟨OwnStep.along_ofExcept doors _, fun value => ⟨OwnStep.along_ofExcept doors _, fun put =>
        ⟨Expr.each_plan doors limits chain outer, fun outer =>
          ⟨each_storeAtPlan object none outer put, fun _ => Plan.each_pure doors value⟩⟩⟩⟩⟩
  -- nothing else can be assigned to
  | .number _, _, _, _ | .string _, _, _, _ | .bool _, _, _, _ | .null, _, _, _
  | .binary .., _, _, _ | .logical .., _, _, _ | .unary .., _, _, _ | .call .., _, _, _
  | .property .., _, _, _ | .array _, _, _, _ | .map _, _, _, _ => by
    unfold storeAtPlan
    exact ⟨Expr.each_plan doors limits chain _, fun container =>
      ⟨OwnStep.along_ofExcept doors _, fun value => ⟨OwnStep.along_ofExcept doors _, fun put =>
        OwnStep.along_ofExcept doors _⟩⟩⟩

theorem each_storePlan (op : Option Operator) (value : Value) (target : Target) :
    (target.storePlan limits chain op value).Each R := by
  rcases target with name | ⟨object, position⟩
  · exact ⟨OwnStep.along_checkFree doors name, fun _ => ⟨OwnStep.along_lookup? doors chain name,
      fun old => ⟨OwnStep.along_ofExcept doors _, fun value =>
        ⟨OwnStep.along_assign doors chain name value, fun _ => Plan.each_pure doors value⟩⟩⟩⟩
  · exact ⟨Expr.each_plan doors limits chain position, fun position =>
      each_storeAtPlan doors limits chain object op position value⟩

end Target

namespace Iteration

variable {R : World → World → Prop} (doors : World.Doors R) {step : Value → Plan Flow}
  (h : ∀ v, (step v).Each R)
include doors h

theorem each_forEachPlan (values : List Value) : (forEachPlan step values).Each R := by
  induction values with
  | nil => exact Plan.each_pure doors _
  | cons v rest ih =>
    refine ⟨h v, fun flow => ?_⟩
    cases flow with
    | next => exact ih
    | leave value => exact Plan.each_pure doors _

theorem each_forCountPlan (start count : Nat) : (forCountPlan step start count).Each R := by
  induction count generalizing start with
  | zero => exact Plan.each_pure doors _
  | succ count ih =>
    refine ⟨h _, fun flow => ?_⟩
    cases flow with
    | next => exact ih (start + 1)
    | leave value => exact Plan.each_pure doors _

theorem each_plan (iteration : Iteration) : (iteration.plan step).Each R := by
  cases iteration with
  | items values => exact each_forEachPlan doors h values
  | upTo count => exact each_forCountPlan doors h 0 count

end Iteration

namespace Stmt

variable {R : World → World → Prop} (doors : World.Doors R) (limits : Limits) (chain : Chain)
include doors

mutual

theorem each_plan : ∀ stmt : Stmt, (stmt.plan limits chain).Each R
  | .expression line value => by
    unfold plan
    exact ⟨Expr.each_plan doors limits chain value, fun value =>
      ⟨OwnStep.along_keepValue doors value, fun _ => Plan.each_pure doors _⟩⟩
  | .assign line target op value => by
    unfold plan
    exact ⟨Expr.each_plan doors limits chain value, fun value =>
      ⟨Target.each_storePlan doors limits chain op value target, fun value =>
        ⟨OwnStep.along_keepValue doors value, fun _ => Plan.each_pure doors _⟩⟩⟩
  | .choose line branches otherwise => by
    unfold plan
    exact each_planBranches (each_planOtherwise otherwise) branches
  | .loop line name items body => by
    unfold plan
    refine ⟨Expr.each_plan doors limits chain items, fun value =>
      ⟨OwnStep.along_ofExcept doors _, fun iteration => ?_⟩⟩
    refine Iteration.each_plan doors (fun value => ?_) iteration
    exact ⟨trivial, fun _ => ⟨OwnStep.along_assign doors chain name value, fun _ =>
      ⟨OwnStep.along_declare doors chain _, fun _ => each_planAll body⟩⟩⟩
  | .function _ _ _ _ => by
    unfold plan
    exact Plan.each_pure doors _
  | .leave line value => by
    unfold plan
    cases value with
    | some e => exact ⟨Expr.each_plan doors limits chain e, fun value => Plan.each_pure doors _⟩
    | none => exact Plan.each_pure doors _

theorem each_planBranches {last : Plan Flow} (h : last.Each R) :
    ∀ branches : List (Expr × List Stmt), (planBranches limits chain last branches).Each R
  | [] => by
    unfold planBranches
    exact h
  | (condition, body) :: rest => by
    unfold planBranches
    refine ⟨Expr.each_plan doors limits chain condition, fun value => ?_⟩
    dsimp only
    split
    · exact ⟨OwnStep.along_declare doors chain _, fun _ => each_planAll body⟩
    · exact each_planBranches h rest

theorem each_planOtherwise : ∀ otherwise : Option (List Stmt),
    (planOtherwise limits chain otherwise).Each R
  | none => by
    unfold planOtherwise
    exact Plan.each_pure doors _
  | some body => by
    unfold planOtherwise
    exact ⟨OwnStep.along_declare doors chain _, fun _ => each_planAll body⟩

theorem each_planAll : ∀ block : List Stmt, (planAll limits chain block).Each R
  | [] => by
    unfold planAll
    exact Plan.each_pure doors _
  | stmt :: rest => by
    unfold planAll
    refine ⟨each_plan stmt, fun flow => ?_⟩
    cases flow with
    | next => exact each_planAll rest
    | leave value => exact Plan.each_pure doors _

end

theorem each_planBlock (block : List Stmt) : (planBlock limits chain block).Each R :=
  ⟨OwnStep.along_declare doors chain _, fun _ => each_planAll doors limits chain block⟩

end Stmt

namespace Program

variable {R : World → World → Prop} (doors : World.Doors R) (limits : Limits) (p : Program)
include doors

theorem each_plan : (p.plan limits).Each R := by
  refine ⟨Stmt.each_planBlock doors limits topLevel p.statements, fun flow => ?_⟩
  cases flow with
  | next => exact OwnStep.along_lastValue doors
  | leave value => exact Plan.each_pure doors value

theorem each_eventPlan (name : String) (args : List Value) :
    (p.eventPlan limits name args).Each R := by
  refine ⟨each_plan doors limits p, fun _ => ⟨OwnStep.along_lookup? doors topLevel name,
    fun found => ?_⟩⟩
  cases found with
  | none => exact OwnStep.along_ofExcept doors _
  | some callee =>
    dsimp only
    cases p.function? name with
    | none => exact Plan.each_callValue doors limits callee args name
    | some f => exact ⟨OwnStep.along_setLine doors f.line, fun _ =>
        Plan.each_callValue doors limits callee args name⟩

end Program

/-! ## Watching -/

namespace Plan

variable {R : World → World → Prop} {α β : Type}

/-- Carry a plan out and note the worlds passed. What a call does, and passes, is a parameter. -/
def watch (limits : Limits) (called : Closure → List Value → Machine → List World × Outcome Value)
    {α : Type} : Plan α → Machine → List World × Outcome α
  | own step, m => ([(step.act.left m).world], step.act m)
  | startBody, m => ([], Machine.startStep limits m)
  | call f args, m => called f args m
  | atLine line steps, m =>
    match steps.watch limits called { m with line := line } with
    | (passed, .ok a m) => (passed, .ok a m)
    | (passed, .error e m) => (passed, .error e (m.noteFailure line))
  | bind first next, m =>
    match first.watch limits called m with
    | (passed, .ok a m) =>
      let (more, r) := (next a).watch limits called m
      (passed ++ more, r)
    | (passed, .error e m) => (passed, .error e m)

/-- Call a declared function and note the worlds passed. -/
def watchCall (limits : Limits) : Nat → Closure → List Value → Machine → List World × Outcome Value
  | 0, f, args, m => ([], invokeAt limits 0 f args m)
  | depth + 1, f, args, m =>
    match f.arity args with
    | .error e => ([], .error e m)
    | .ok () =>
      match (Stmt.planBlock limits (m.scopes.size :: f.scopes) f.decl.body).watch limits
        (watchCall limits depth) (m.enter f args) with
      | (passed, .ok flow m') => (passed, .ok flow.result (m'.comeBack m.line))
      | (passed, .error e m') => (passed, .error e (m'.comeBack m.line))

variable {called : Closure → List Value → Machine → List World × Outcome Value}

/-- Watching a plan does not change what it comes to. -/
theorem watch_eq (rules : Rules)
    (same : ∀ f args m, (called f args m).2 = rules.invoke f args m) (p : Plan α) (m : Machine) :
    (p.watch rules.limits called m).2 = p.perform rules m := by
  induction p generalizing m with
  | own step => rfl
  | startBody => rfl
  | call f args => exact same f args m
  | atLine line steps ih =>
    rw [watch, perform_atLine, Machine.atLine, ← ih]
    obtain ⟨passed, r⟩ := steps.watch rules.limits called { m with line := line }
    cases r with
    | ok a m => rfl
    | error e m => rfl
  | bind first next ih ih' =>
    change _ = EStateM.bind (first.perform rules) (fun a => (next a).perform rules) m
    rw [watch, EStateM.bind, ← ih]
    obtain ⟨passed, r⟩ := first.watch rules.limits called m
    cases r with
    | ok a m => exact ih' a m
    | error e m => rfl

theorem watchCall_eq (limits : Limits) (depth : Nat) (f : Closure) (args : List Value)
    (m : Machine) : (watchCall limits depth f args m).2 = invokeAt limits depth f args m := by
  induction depth generalizing f args m with
  | zero => rfl
  | succ depth ih =>
    rw [watchCall]
    cases arity : f.arity args with
    | error e => exact (invokeAt_of_argsRefused arity _).symm
    | ok =>
      rw [invokeAt_succ arity, ← Stmt.perform_planBlock,
        ← watch_eq ⟨limits, invokeAt limits depth⟩ ih]
      dsimp only
      generalize watch limits _ _ _ = watched
      obtain ⟨passed, r⟩ := watched
      cases r with
      | ok flow m' => rfl
      | error e m' => rfl

theorem noteFailure_world (m : Machine) (line : Nat) : (m.noteFailure line).world = m.world := by
  unfold Machine.noteFailure
  split <;> rfl

/-- What is watched goes along a relation. -/
def Passes (R : World → World → Prop) (m : Machine) (watched : List World × Outcome α) : Prop :=
  World.Trail R m.world watched.1 watched.2.machine.world

/-- A plan that is watched goes along the relation, if its steps and the calls do. -/
theorem passes_watch (limits : Limits) {p : Plan α} (each : p.Each R)
    (calls : ∀ f args m, Passes R m (called f args m)) (m : Machine) :
    Passes R m (p.watch limits called m) := by
  induction p generalizing m with
  | own step =>
    have step_world := Act.left_eq_machine step.act m
    rw [watch, Passes, step_world]
    exact .single (step_world ▸ each m)
  | startBody =>
    rw [watch, Passes, Machine.startStep]
    split <;> exact .nil _
  | call f args => exact calls f args m
  | atLine line steps ih =>
    have inside := ih each { m with line := line }
    rw [watch]
    generalize steps.watch limits called { m with line := line } = watched at inside ⊢
    obtain ⟨passed, r⟩ := watched
    cases r with
    | ok a m' => exact inside
    | error e m' =>
      change World.Trail R m.world passed (m'.noteFailure line).world
      rw [noteFailure_world]
      exact inside
  | bind first next ih ih' =>
    have before := ih each.1 m
    rw [watch]
    generalize first.watch limits called m = watched at before ⊢
    obtain ⟨passed, r⟩ := watched
    cases r with
    | ok a m' => exact before.append (ih' a (each.2 a) m')
    | error e m' => exact before

theorem passes_watchCall (doors : World.Doors R) (limits : Limits) (depth : Nat) (f : Closure)
    (args : List Value) (m : Machine) : Passes R m (watchCall limits depth f args m) := by
  induction depth generalizing f args m with
  | zero =>
    obtain ⟨e, refused⟩ := invokeAt_zero limits f args m
    rw [watchCall, refused]
    exact .nil _
  | succ depth ih =>
    rw [watchCall]
    cases f.arity args with
    | error e => exact .nil _
    | ok =>
      have inside := passes_watch limits
        (Stmt.each_planBlock doors limits (m.scopes.size :: f.scopes) f.decl.body) ih
        (m.enter f args)
      dsimp only
      generalize watch limits _ _ _ = watched at inside ⊢
      obtain ⟨passed, r⟩ := watched
      cases r with
      | ok flow m' => exact inside
      | error e m' => exact inside

/-- Carry a plan out from the start and note the worlds passed. -/
def watchStart (limits : Limits) (p : Plan Value) (world : World) :
    List World × (RunResult × World) :=
  match p.watch limits (watchCall limits limits.maxCallDepth) { world := world } with
  | (passed, .ok value m) => (passed, m.finish (.ok value))
  | (passed, .error e m) => (passed, m.finish (.error e))

theorem watchStart_eq (limits : Limits) (p : Plan Value) (world : World) :
    (p.watchStart limits world).2 = Run.start (p.perform (Rules.ofLimits limits)) world := by
  have same := watch_eq (Rules.ofLimits limits)
    (fun f args m => watchCall_eq limits limits.maxCallDepth f args m) p { world := world }
  rw [watchStart, Run.start, ← same, Rules.ofLimits]
  generalize p.watch limits _ _ = watched
  obtain ⟨passed, r⟩ := watched
  cases r with
  | ok value m => rfl
  | error e m => rfl

/-- What is watched goes along a relation up to a state, and ends there. -/
def Ends (R : World → World → Prop) (world : World)
    (watched : List World × (RunResult × World)) : Prop :=
  ∃ (outcome : Except ScriptError Value) (m : Machine),
    World.Trail R world watched.1 m.world ∧ watched.2 = m.finish outcome

theorem ends_watchStart (doors : World.Doors R) (limits : Limits) {p : Plan Value}
    (each : p.Each R) (world : World) : Ends R world (p.watchStart limits world) := by
  have passes := passes_watch limits each (passes_watchCall doors limits limits.maxCallDepth)
    { world := world }
  rw [watchStart]
  generalize p.watch limits _ _ = watched at passes ⊢
  obtain ⟨passed, r⟩ := watched
  cases r with
  | ok value m => exact ⟨.ok value, m, passes, rfl⟩
  | error e m => exact ⟨.error e, m, passes, rfl⟩

end Plan

/-! ## Programs -/

namespace Program

variable {R : World → World → Prop} (limits : Limits) (p : Program)

/-- Run a program in a world and note the worlds passed. -/
def watch (world : World) : List World × (RunResult × World) :=
  (p.plan limits).watchStart limits world

/-- Run a program in a world, then call one of its functions, and note the worlds passed. -/
def watchEvent (name : String) (args : List Value) (world : World) :
    List World × (RunResult × World) :=
  (p.eventPlan limits name args).watchStart limits world

/-- **A run that is watched comes to the same.** -/
theorem watch_eq (world : World) : (p.watch limits world).2 = p.run limits world := by
  rw [watch, Plan.watchStart_eq, perform_plan]
  rfl

theorem watchEvent_eq (name : String) (args : List Value) (world : World) :
    (p.watchEvent limits name args world).2 = p.runEvent limits name args world := by
  rw [watchEvent, Plan.watchStart_eq, perform_eventPlan]
  rfl

/-- **A run goes along what each of its doors goes along**, from each world that it passes to the
next. -/
theorem ends_watch (doors : World.Doors R) (world : World) :
    Plan.Ends R world (p.watch limits world) :=
  Plan.ends_watchStart doors limits (each_plan doors limits p) world

theorem ends_watchEvent (doors : World.Doors R) (name : String) (args : List Value)
    (world : World) : Plan.Ends R world (p.watchEvent limits name args world) :=
  Plan.ends_watchStart doors limits (each_eventPlan doors limits p name args) world

end Program

end SheetScript
