import SheetScript.Proofs.Run.Change

/-!
# The plan of a run

The plan of a program is the tree of the steps that its run takes. It shows what the run itself does
not: where a loop body starts, and where a declared function is called.

* `Plan` is a tree of steps. A step of its own (`OwnStep`) starts no loop body and calls nothing.
* `Expr.plan`, `Stmt.plan` and `Program.plan` are the plans of the pieces of a program. The plan of
  a call says which function is called; what the function does is no part of the plan.
* `Plan.perform` carries a plan out. `Program.perform_plan`, `Program.perform_eventPlan`: to carry
  the plan of a program out is to run the program.
-/

namespace SheetScript

open Relation Act

/-! ## Steps of their own -/

/-- Two states have used the same of the budgets: the active calls are the same, and as many loop
steps have started. -/
structure Machine.UsesSame (m m' : Machine) : Prop where
  frames : m'.frames = m.frames
  iterations : m'.iterations = m.iterations

theorem Machine.UsesSame.of_path {m m' : Machine} (h : ReflTransGen Machine.UsesSame m m') :
    m.UsesSame m' := by
  induction h with
  | refl => exact ⟨rfl, rfl⟩
  | tail _ step ih => exact ⟨step.frames.trans ih.frames, step.iterations.trans ih.iterations⟩

/-- A step that starts no loop body and calls no declared function. -/
structure OwnStep (α : Type) where
  act : Run α
  quiet : Goes Machine.UsesSame act

namespace OwnStep

variable {α : Type}

theorem usesSame (step : OwnStep α) (m : Machine) : m.UsesSame (step.act.left m) :=
  .of_path (step.quiet m)

theorem quiet_onWorld (act : Act World α) : Goes Machine.UsesSame (Machine.onWorld act) :=
  fun m => .single (by
    rw [Machine.onWorld, left_on]
    exact ⟨rfl, rfl⟩)

def give (a : α) : OwnStep α := ⟨pure a, goes_pure a⟩

def ofExcept (result : Except ScriptError α) : OwnStep α :=
  ⟨Run.ofExcept result, goes_ofExcept result⟩

def lookup? (chain : Chain) (name : String) : OwnStep (Option Value) :=
  ⟨Machine.lookup? chain name, goes_get_bind fun m => goes_pure (m.scopes.lookup? chain name) m⟩

def valueOf (chain : Chain) (name : String) : OwnStep Value where
  act := Expr.valueOf chain name
  quiet := by
    unfold Expr.valueOf
    split
    · exact goes_pure _
    · refine goes_get_bind fun m => ?_
      split
      · exact goes_pure _ m
      · refine (lookup? chain name).quiet.bind (fun found => ?_) m
        split
        · exact goes_pure _
        · exact goes_throw _

def checkFree (name : String) : OwnStep Unit where
  act := Target.checkFree name
  quiet := goes_get_bind fun m => by
    split_ifs
    · exact goes_throw _ m
    · exact goes_pure _ m

def assign (chain : Chain) (name : String) (value : Value) : OwnStep Unit :=
  ⟨Machine.assign chain name value, goes_modify fun _ => ⟨rfl, rfl⟩⟩

def declare (chain : Chain) (functions : List Function) : OwnStep Unit where
  act := Machine.declare chain functions
  quiet := by
    unfold Machine.declare
    split
    · exact goes_pure _
    · exact goes_modify fun _ => ⟨rfl, rfl⟩

def keepValue (value : Value) : OwnStep Unit :=
  ⟨Machine.keepValue value, goes_modify fun _ => ⟨rfl, rfl⟩⟩

def lastValue : OwnStep Value :=
  ⟨do return (← get).lastValue, goes_get_bind fun m => goes_pure m.lastValue m⟩

def setLine (line : Nat) : OwnStep Unit :=
  ⟨modify fun m => { m with line := line }, goes_modify fun _ => ⟨rfl, rfl⟩⟩

def builtin (limits : Limits) (b : Builtin) (args : List Value) : OwnStep Value :=
  ⟨Machine.onWorld (b.call limits.consoleLog args), quiet_onWorld _⟩

/-- A call of a function of the host, or of what is not there. -/
def native (f : NativeRef) (args : List Value) (description : String) : OwnStep Value where
  act := do
    match (← get).world.context.natives[f.place]? with
    | some native => Machine.onWorld (World.onContext (Context.onEffects (native.call args)))
    | none => throw (.notCallable description)
  quiet := goes_get_bind fun m => by
    split
    · exact quiet_onWorld _ m
    · exact goes_throw _ m

def method (receiver : Value) (name : String) (args : List Value) : OwnStep Value :=
  ⟨Machine.onWorld (World.onContext (receiver.callMethod name args)), quiet_onWorld _⟩

def property (receiver : Value) (name : String) : OwnStep Value where
  act := do Run.ofExcept (receiver.property (← get).world.context name)
  quiet := goes_get_bind fun m => goes_ofExcept _ m

end OwnStep

/-! ## Plans -/

/-- The steps of a run, in order; what follows a step may depend on what the step gives. -/
inductive Plan : Type → Type 1
  | own {α : Type} (step : OwnStep α) : Plan α
  /-- A loop body is to start. -/
  | startBody : Plan Unit
  /-- A declared function is called. -/
  | call (f : Closure) (args : List Value) : Plan Value
  /-- The steps of a statement. -/
  | atLine {α : Type} (line : Nat) (steps : Plan α) : Plan α
  | bind {α β : Type} (first : Plan α) (next : α → Plan β) : Plan β

namespace Plan

variable {α β : Type}

instance : Monad Plan where
  pure a := own (.give a)
  bind := bind

/-- Carry a plan out. -/
def perform (rules : Rules) {α : Type} : Plan α → Run α
  | own step => step.act
  | startBody => Machine.startStep rules.limits
  | call f args => rules.invoke f args
  | atLine line steps => Machine.atLine line (steps.perform rules)
  | bind first next => first.perform rules >>= fun a => (next a).perform rules

variable (rules : Rules)

@[simp] theorem perform_own (step : OwnStep α) : (own step).perform rules = step.act := rfl

@[simp] theorem perform_startBody :
    startBody.perform rules = Machine.startStep rules.limits := rfl

@[simp] theorem perform_pure (a : α) : (pure a : Plan α).perform rules = pure a := rfl

@[simp] theorem perform_atLine (line : Nat) (steps : Plan α) :
    (atLine line steps).perform rules = Machine.atLine line (steps.perform rules) := rfl

@[simp] theorem perform_bind (first : Plan α) (next : α → Plan β) :
    (first >>= next).perform rules = first.perform rules >>= fun a => (next a).perform rules := rfl

/-- The plan of a call of a value. -/
def callValue (limits : Limits) (callee : Value) (args : List Value) (description : String) :
    Plan Value :=
  match callee with
  | .function f => call f args
  | .builtin b => own (.builtin limits b args)
  | .native f => own (.native f args description)
  | _ => own (.ofExcept (.error (.notCallable description)))

/-- The plan of a call of a method. -/
def callMethod (limits : Limits) (receiver : Value) (name : String) (args : List Value) :
    Plan Value :=
  match receiver with
  | .map entries =>
    match Entries.find? entries name with
    | some f => callValue limits f args name
    | none => own (.method receiver name args)
  | _ => own (.method receiver name args)

@[simp] theorem perform_callValue (callee : Value) (args : List Value) (description : String) :
    (callValue rules.limits callee args description).perform rules =
      rules.callValue callee args description := by
  cases callee <;> rfl

@[simp] theorem perform_callMethod (receiver : Value) (name : String) (args : List Value) :
    (callMethod rules.limits receiver name args).perform rules =
      rules.callMethod receiver name args := by
  cases receiver with
  | map entries =>
    unfold callMethod Rules.callMethod
    dsimp only
    cases Entries.find? entries name with
    | some f => exact perform_callValue rules f args name
    | none => rfl
  | _ => rfl

end Plan

/-! ## Expressions -/

namespace Expr

mutual

/-- The plan of an expression. -/
def plan (limits : Limits) (chain : Chain) : Expr → Plan Value
  | .number value => pure (.number value)
  | .string value => pure (.string value)
  | .bool value => pure (.bool value)
  | .null => pure .null
  | .variable name => .own (.valueOf chain name)
  | .binary op left right => do
    let a ← plan limits chain left
    let b ← plan limits chain right
    .own (.ofExcept (op.apply a b))
  | .logical op left right => do
    let a ← plan limits chain left
    if settles op a then pure a else plan limits chain right
  | .unary op operand => do
    let a ← plan limits chain operand
    .own (.ofExcept (op.apply a))
  | .call (.property object name) args => do
    let receiver ← plan limits chain object
    let values ← planAll limits chain args
    Plan.callMethod limits receiver name values
  | .call callee args => do
    let f ← plan limits chain callee
    let values ← planAll limits chain args
    Plan.callValue limits f values callee.text
  | .property object name => do
    let receiver ← plan limits chain object
    .own (.property receiver name)
  | .index object position => do
    let container ← plan limits chain object
    let place ← plan limits chain position
    .own (.ofExcept (container.get place))
  | .array items => do
    return .array (← planAll limits chain items)
  | .map entries => do
    return .map (Entries.ofList (← planEntries limits chain entries))

/-- The plan of several expressions. -/
def planAll (limits : Limits) (chain : Chain) : List Expr → Plan (List Value)
  | [] => pure []
  | e :: rest => do
    let value ← plan limits chain e
    let values ← planAll limits chain rest
    return value :: values

/-- The plan of the entries of a map. -/
def planEntries (limits : Limits) (chain : Chain) :
    List (String × Expr) → Plan (List (String × Value))
  | [] => pure []
  | (key, e) :: rest => do
    let value ← plan limits chain e
    let values ← planEntries limits chain rest
    return (key, value) :: values

end

variable (rules : Rules) (chain : Chain)

mutual

/-- To carry the plan of an expression out is to evaluate the expression. -/
theorem perform_plan : ∀ e : Expr,
    (e.plan rules.limits chain).perform rules = e.eval rules chain
  | .number _ | .string _ | .bool _ | .null => rfl
  | .variable _ => rfl
  | .binary op left right => by
    unfold plan eval
    simp only [Plan.perform_bind, perform_plan left, perform_plan right]
    rfl
  | .logical op left right => by
    unfold plan eval
    simp only [Plan.perform_bind, perform_plan left]
    congr 1
    funext a
    rw [apply_ite (Plan.perform rules), perform_plan right]
    rfl
  | .unary op operand => by
    unfold plan eval
    simp only [Plan.perform_bind, perform_plan operand]
    rfl
  | .call callee args => by
    have inner := perform_plan callee
    have values := perform_planAll args
    cases callee with
    | property object name =>
      -- a call of a property is a call of a method
      unfold plan eval
      simp only [Plan.perform_bind, Plan.perform_callMethod, perform_plan object, values]
    | _ =>
      unfold plan eval
      simp only [Plan.perform_bind, Plan.perform_callValue, inner, values]
  | .property object name => by
    unfold plan eval
    simp only [Plan.perform_bind, perform_plan object]
    rfl
  | .index object position => by
    unfold plan eval
    simp only [Plan.perform_bind, perform_plan object, perform_plan position]
    rfl
  | .array items => by
    unfold plan eval
    simp only [Plan.perform_bind, perform_planAll items]
    rfl
  | .map entries => by
    unfold plan eval
    simp only [Plan.perform_bind, perform_planEntries entries]
    rfl

theorem perform_planAll : ∀ es : List Expr,
    (planAll rules.limits chain es).perform rules = evalAll rules chain es
  | [] => rfl
  | e :: rest => by
    unfold planAll evalAll
    simp only [Plan.perform_bind, perform_plan e, perform_planAll rest]
    rfl

theorem perform_planEntries : ∀ es : List (String × Expr),
    (planEntries rules.limits chain es).perform rules = evalEntries rules chain es
  | [] => rfl
  | (key, e) :: rest => by
    unfold planEntries evalEntries
    simp only [Plan.perform_bind, perform_plan e, perform_planEntries rest]
    rfl

end

end Expr

/-! ## Assignments -/

namespace Target

/-- The plan of storing into a container at a position. -/
def storeAtPlan (limits : Limits) (chain : Chain) (op : Option Operator) (position value : Value) :
    Expr → Plan Value
  | .variable name => do
    let container ← .own (.valueOf chain name)
    let value ← .own (.ofExcept (combine op (container.get position) value))
    let container ← .own (.ofExcept (container.put position value))
    .own (.checkFree name)
    .own (.assign chain name container)
    return value
  | .index object outer => do
    let container ← (Expr.index object outer).plan limits chain
    let value ← .own (.ofExcept (combine op (container.get position) value))
    let container ← .own (.ofExcept (container.put position value))
    let outer ← outer.plan limits chain
    let _ ← storeAtPlan limits chain none outer container object
    return value
  | object => do
    let container ← object.plan limits chain
    let value ← .own (.ofExcept (combine op (container.get position) value))
    let _ ← .own (.ofExcept (container.put position value))
    .own (.ofExcept (.error (.type (.notAssignable object.text))))

/-- The plan of an assignment to a target. -/
def storePlan (limits : Limits) (chain : Chain) (op : Option Operator) (value : Value) :
    Target → Plan Value
  | .variable name => do
    .own (.checkFree name)
    let old? ← .own (.lookup? chain name)
    let old := match old? with
      | some old => .ok old
      | none => .error (.undefinedVariable name)
    let value ← .own (.ofExcept (combine op old value))
    .own (.assign chain name value)
    return value
  | .index object position => do
    let position ← position.plan limits chain
    storeAtPlan limits chain op position value object

variable (rules : Rules) (chain : Chain)

theorem perform_storeAtPlan : ∀ (e : Expr) (op : Option Operator) (position value : Value),
    (storeAtPlan rules.limits chain op position value e).perform rules =
      storeAt rules chain op position value e
  | .variable _, _, _, _ => rfl
  | .index object outer, op, position, value => by
    unfold storeAtPlan storeAt
    simp only [Plan.perform_bind, Expr.perform_plan, perform_storeAtPlan object]
    rfl
  -- nothing else can be assigned to
  | .number _, _, _, _ | .string _, _, _, _ | .bool _, _, _, _ | .null, _, _, _
  | .binary .., _, _, _ | .logical .., _, _, _ | .unary .., _, _, _ | .call .., _, _, _
  | .property .., _, _, _ | .array _, _, _, _ | .map _, _, _, _ => by
    unfold storeAtPlan storeAt
    simp only [Plan.perform_bind, Expr.perform_plan]
    rfl

@[simp] theorem perform_storePlan (op : Option Operator) (value : Value) (target : Target) :
    (target.storePlan rules.limits chain op value).perform rules =
      target.store rules chain op value := by
  rcases target with name | ⟨object, position⟩
  · rfl
  · unfold storePlan store
    simp only [Plan.perform_bind, Expr.perform_plan, perform_storeAtPlan]

end Target

/-! ## Loops -/

namespace Iteration

/-- The plan of a step for each value until one leaves. -/
def forEachPlan (step : Value → Plan Flow) : List Value → Plan Flow
  | [] => pure .next
  | v :: rest => do
    match ← step v with
    | .leave value => return .leave value
    | .next => forEachPlan step rest

/-- The plan of a step for each number from `start` on, `count` of them, until one leaves. -/
def forCountPlan (step : Value → Plan Flow) (start : Nat) : Nat → Plan Flow
  | 0 => pure .next
  | count + 1 => do
    match ← step (.number (Float.ofNat start)) with
    | .leave value => return .leave value
    | .next => forCountPlan step (start + 1) count

/-- The plan of a loop. -/
def plan (step : Value → Plan Flow) : Iteration → Plan Flow
  | items values => forEachPlan step values
  | upTo count => forCountPlan step 0 count

variable {rules : Rules} {step : Value → Plan Flow} {act : Value → Run Flow}
  (h : ∀ v, (step v).perform rules = act v)
include h

theorem perform_forEachPlan (values : List Value) :
    (forEachPlan step values).perform rules = forEach act values := by
  induction values with
  | nil => rfl
  | cons v rest ih =>
    unfold forEachPlan forEach
    rw [Plan.perform_bind, h]
    congr 1
    funext flow
    cases flow with
    | next => exact ih
    | leave value => rfl

theorem perform_forCountPlan (start count : Nat) :
    (forCountPlan step start count).perform rules = forCount act start count := by
  induction count generalizing start with
  | zero => rfl
  | succ count ih =>
    unfold forCountPlan forCount
    rw [Plan.perform_bind, h]
    congr 1
    funext flow
    cases flow with
    | next => exact ih (start + 1)
    | leave value => rfl

theorem perform_plan (iteration : Iteration) :
    (iteration.plan step).perform rules = iteration.run act := by
  cases iteration with
  | items values => exact perform_forEachPlan h values
  | upTo count => exact perform_forCountPlan h 0 count

end Iteration

/-! ## Statements -/

namespace Stmt

mutual

/-- The plan of a statement. -/
def plan (limits : Limits) (chain : Chain) : Stmt → Plan Flow
  | .expression line value => .atLine line do
    .own (.keepValue (← value.plan limits chain))
    return .next
  | .assign line target op value => .atLine line do
    let value ← value.plan limits chain
    .own (.keepValue (← target.storePlan limits chain op value))
    return .next
  | .choose line branches otherwise =>
    .atLine line (planBranches limits chain (planOtherwise limits chain otherwise) branches)
  | .loop line name items body => .atLine line do
    let iteration ← .own (.ofExcept (Iteration.ofValue (← items.plan limits chain)))
    iteration.plan fun value => do
      .startBody
      .own (.assign chain name value)
      .own (.declare chain (functions body))
      planAll limits chain body
  | .function line _ _ _ => .atLine line (pure .next)
  | .leave line value => .atLine line do
    match value with
    | some e => return .leave (← e.plan limits chain)
    | none => return .leave .null

/-- The plan of the block of the first condition that holds, or else the last plan. -/
def planBranches (limits : Limits) (chain : Chain) (otherwise : Plan Flow) :
    List (Expr × List Stmt) → Plan Flow
  | [] => otherwise
  | (condition, body) :: rest => do
    if (← condition.plan limits chain).truthy then
      .own (.declare chain (functions body))
      planAll limits chain body
    else planBranches limits chain otherwise rest

/-- The plan of the block for when no condition holds. -/
def planOtherwise (limits : Limits) (chain : Chain) : Option (List Stmt) → Plan Flow
  | none => pure .next
  | some body => do
    .own (.declare chain (functions body))
    planAll limits chain body

/-- The plan of statements in order. -/
def planAll (limits : Limits) (chain : Chain) : List Stmt → Plan Flow
  | [] => pure .next
  | stmt :: rest => do
    match ← plan limits chain stmt with
    | .leave value => return .leave value
    | .next => planAll limits chain rest

end

/-- The plan of a block. -/
def planBlock (limits : Limits) (chain : Chain) (block : List Stmt) : Plan Flow := do
  .own (.declare chain (functions block))
  planAll limits chain block

variable (rules : Rules) (chain : Chain)

mutual

/-- To carry the plan of a statement out is to run the statement. -/
theorem perform_plan : ∀ stmt : Stmt,
    (stmt.plan rules.limits chain).perform rules = stmt.exec rules chain
  | .expression line value => by
    unfold plan exec
    simp only [Plan.perform_atLine, Plan.perform_bind, Expr.perform_plan]
    rfl
  | .assign line target op value => by
    unfold plan exec
    simp only [Plan.perform_atLine, Plan.perform_bind, Expr.perform_plan,
      Target.perform_storePlan]
    rfl
  | .choose line branches otherwise => by
    unfold plan exec
    rw [Plan.perform_atLine, perform_planBranches (perform_planOtherwise otherwise) branches]
  | .loop line name items body => by
    unfold plan exec
    simp only [Plan.perform_atLine, Plan.perform_bind, Expr.perform_plan]
    congr 2
    funext value
    congr 1
    funext iteration
    refine Iteration.perform_plan (fun value => ?_) iteration
    simp only [Plan.perform_bind, perform_planAll body]
    rfl
  | .function _ _ _ _ => rfl
  | .leave line value => by
    unfold plan exec
    rw [Plan.perform_atLine]
    cases value with
    | some e =>
      simp only [Plan.perform_bind, Expr.perform_plan]
      rfl
    | none => rfl

theorem perform_planBranches {last : Plan Flow} {otherwise : Run Flow}
    (h : last.perform rules = otherwise) : ∀ branches : List (Expr × List Stmt),
      (planBranches rules.limits chain last branches).perform rules =
        execBranches rules chain otherwise branches
  | [] => by
    unfold planBranches execBranches
    exact h
  | (condition, body) :: rest => by
    unfold planBranches execBranches
    simp only [Plan.perform_bind, Expr.perform_plan]
    congr 1
    funext value
    rw [apply_ite (Plan.perform rules), Plan.perform_bind, perform_planAll body,
      perform_planBranches h rest]
    rfl

theorem perform_planOtherwise : ∀ otherwise : Option (List Stmt),
    (planOtherwise rules.limits chain otherwise).perform rules =
      execOtherwise rules chain otherwise
  | none => by
    unfold planOtherwise execOtherwise
    rfl
  | some body => by
    unfold planOtherwise execOtherwise
    rw [Plan.perform_bind, perform_planAll body]
    rfl

theorem perform_planAll : ∀ block : List Stmt,
    (planAll rules.limits chain block).perform rules = execAll rules chain block
  | [] => by
    unfold planAll execAll
    rfl
  | stmt :: rest => by
    unfold planAll execAll
    rw [Plan.perform_bind, perform_plan stmt]
    congr 1
    funext flow
    cases flow with
    | next => exact perform_planAll rest
    | leave value => rfl

end

/-- To carry the plan of a block out is to run the block. -/
theorem perform_planBlock (block : List Stmt) :
    (planBlock rules.limits chain block).perform rules = execBlock rules chain block := by
  unfold planBlock execBlock
  rw [Plan.perform_bind, perform_planAll]
  rfl

end Stmt

/-! ## Programs -/

namespace Program

/-- The plan of a program. -/
def plan (limits : Limits) (p : Program) : Plan Value := do
  match ← Stmt.planBlock limits topLevel p.statements with
  | .leave value => return value
  | .next => .own .lastValue

/-- The plan of a program and then of a call of one of its functions. -/
def eventPlan (limits : Limits) (p : Program) (name : String) (args : List Value) :
    Plan Value := do
  let _ ← p.plan limits
  match ← .own (.lookup? topLevel name) with
  | none => .own (.ofExcept (.error (.undefinedVariable name)))
  | some callee =>
    match p.function? name with
    | some f => .own (.setLine f.line)
    | none => pure ()
    Plan.callValue limits callee args name

variable (limits : Limits) (p : Program)

/-- **To carry the plan of a program out is to run the program.** -/
theorem perform_plan : (p.plan limits).perform (Rules.ofLimits limits) = p.exec limits := by
  unfold plan exec
  rw [Plan.perform_bind, ← Stmt.perform_planBlock (Rules.ofLimits limits)]
  congr 1
  funext flow
  cases flow with
  | next => rfl
  | leave value => rfl

/-- To carry the plan of an event out is to run the event. -/
theorem perform_eventPlan (name : String) (args : List Value) :
    (p.eventPlan limits name args).perform (Rules.ofLimits limits) =
      p.execEvent limits name args := by
  unfold eventPlan execEvent
  rw [Plan.perform_bind, perform_plan]
  congr 1
  funext _
  rw [Plan.perform_bind]
  congr 1
  funext found
  cases found with
  | none => rfl
  | some callee =>
    dsimp only
    cases p.function? name with
    | none => exact Plan.perform_callValue (Rules.ofLimits limits) callee args name
    | some f =>
      rw [Plan.perform_bind, ← Plan.perform_callValue (Rules.ofLimits limits) callee args name]
      rfl

end Program

end SheetScript
