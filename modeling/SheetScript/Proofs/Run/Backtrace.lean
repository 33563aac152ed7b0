import SheetScript.Proofs.Run.Termination

/-!
# Where a run fails

When a run fails, some statements have begun and not ended, and so have some calls. A failure names
the calls, and for each the line of the innermost statement. The interpreter finds them by what it
noted on the way: one line for all that is active, and for each call the line that it was made on.

* `Position` lists what is active, with the lines of the statements that are being run.
  `Plan.Fails` says at which position a failure arises; it follows the plan of the run from outside
  to inside, and looks at nothing that the interpreter notes.
* `Plan.Leads` says which pieces of a plan may call functions: those for which the line noted is
  that of the innermost statement. It is found by recursion on the tree (`Stmt.leads_planBlock`).
* `Plan.Fails.noted` is the step from the one to the other, by induction on the failure.
* `Program.failure_describes` is the statement about a run.
-/

namespace SheetScript

open Act

/-! ## Positions -/

/-- The script or an active call: its name, and the lines of those of its statements that are being
run, the innermost first. -/
structure Activation where
  name : String
  lines : List Nat
  deriving DecidableEq, Repr

/-- What is active, the innermost first. -/
abbrev Position := List Activation

namespace Position

/-- Where a script starts. -/
def script : Position := [⟨"<script>", []⟩]

/-- Inside a statement of what is innermost. -/
def inStatement (line : Nat) : Position → Position
  | [] => []
  | a :: rest => ⟨a.name, line :: a.lines⟩ :: rest

/-- Inside a call of a function. -/
def inCall (f : Closure) (position : Position) : Position := ⟨f.decl.name, []⟩ :: position

/-- The line of the innermost statement of what is innermost. -/
def line? (position : Position) : Option Nat := position.head?.bind (·.lines.head?)

end Position

/-- An entry of a trace names the activation and the line of its innermost statement. -/
def Activation.ShownBy (a : Activation) (entry : String) : Prop :=
  ∃ line, a.lines.head? = some line ∧ entry = Machine.traceEntry a.name line

/-- A failure tells a position: the line of the innermost statement, and all that is active, each
with the line of its own innermost statement. -/
structure Failure.Describes (failure : Failure) (position : Position) : Prop where
  line : ∃ line, position.line? = some line ∧ failure.line = some line
  trace : List.Forall₂ Activation.ShownBy position failure.trace
  /-- What is outermost is the script. -/
  script : ∃ calls lines, position = calls ++ [⟨"<script>", lines⟩]

/-! ## Failures of plans -/

namespace Plan

variable {limits : Limits} {α β : Type} {m m' : Machine} {position at' : Position}
  {e : ScriptError} {p : Plan α}

/-- Carried out at a position, a plan fails, and the failure arises at another: at that of the step
that fails. -/
inductive Fails (limits : Limits) :
    {α : Type} → Plan α → Machine → Position → Position → ScriptError → Machine → Prop
  | own {α : Type} {step : OwnStep α} {m m' : Machine} {e : ScriptError}
      (fails : step.act m = .error e m') (position : Position) :
      Fails limits (.own step) m position position e m'
  | bodyRefused {m : Machine} (full : limits.maxLoopIterations ≤ m.iterations)
      (position : Position) :
      Fails limits .startBody m position position (.iterationLimit limits.maxLoopIterations) m
  | argsRefused {f : Closure} {args : List Value} {m : Machine} {e : ScriptError}
      (arity : f.arity args = .error e) (position : Position) :
      Fails limits (.call f args) m position position e m
  | callRefused {f : Closure} {args : List Value} {m : Machine} (arity : f.arity args = .ok ())
      (full : limits.maxCallDepth ≤ m.frames.length) (position : Position) :
      Fails limits (.call f args) m position position (.stackOverflow limits.maxCallDepth) m
  /-- Inside a call that has become active. -/
  | call {f : Closure} {args : List Value} {m m' : Machine} {position at' : Position}
      {e : ScriptError} (arity : f.arity args = .ok ())
      (room : m.frames.length < limits.maxCallDepth)
      (inside : Fails limits (Stmt.planBlock limits (m.scopes.size :: f.scopes) f.decl.body)
        (m.enter f args) (position.inCall f) at' e m') :
      Fails limits (.call f args) m position at' e (m'.comeBack m.line)
  /-- Inside a statement. -/
  | statement {α : Type} {line : Nat} {steps : Plan α} {m m' : Machine}
      {position at' : Position} {e : ScriptError}
      (inside : Fails limits steps { m with line := line } (position.inStatement line) at' e m') :
      Fails limits (.atLine line steps) m position at' e (m'.noteFailure line)
  | first {α β : Type} {first : Plan α} {next : α → Plan β} {m m' : Machine}
      {position at' : Position} {e : ScriptError}
      (fails : Fails limits first m position at' e m') :
      Fails limits (.bind first next) m position at' e m'
  | next {α β : Type} {first : Plan α} {next : α → Plan β} {m m' m'' : Machine}
      {t : List Moment} {a : α} {position at' : Position} {e : ScriptError}
      (before : Runs limits first m t (.ok a m'))
      (fails : Fails limits (next a) m' position at' e m'') :
      Fails limits (.bind first next) m position at' e m''

/-- Where a plan fails, that is what it comes to. -/
theorem Fails.runs (h : Fails limits p m position at' e m') :
    ∃ t, Runs limits p m t (.error e m') := by
  induction h with
  | @own _ step m _ _ fails => exact ⟨[], fails ▸ .own step m⟩
  | bodyRefused full => exact ⟨[], .bodyRefused full⟩
  | argsRefused arity => exact ⟨[], .argsRefused arity⟩
  | callRefused arity full => exact ⟨[], .callRefused arity full⟩
  | call arity room _ ih =>
    obtain ⟨t, inside⟩ := ih
    exact ⟨_, .callFails arity room inside⟩
  | statement _ ih =>
    obtain ⟨t, inside⟩ := ih
    exact ⟨t, .lineFails inside⟩
  | first _ ih =>
    obtain ⟨t, before⟩ := ih
    exact ⟨t, .stops before⟩
  | next before _ ih =>
    obtain ⟨t, after⟩ := ih
    exact ⟨_, .goesOn before after⟩

/-- A plan that comes to a failure fails somewhere. -/
theorem Runs.exists_fails {t : List Moment} {r : Outcome α} (h : Runs limits p m t r)
    (failed : r = .error e m') (position : Position) :
    ∃ at', Fails limits p m position at' e m' := by
  induction h generalizing position e m' with
  | own step m => exact ⟨position, .own failed position⟩
  | bodyStarts => cases failed
  | bodyRefused full =>
    cases failed
    exact ⟨position, .bodyRefused full position⟩
  | argsRefused arity =>
    cases failed
    exact ⟨position, .argsRefused arity position⟩
  | callRefused arity full =>
    cases failed
    exact ⟨position, .callRefused arity full position⟩
  | callReturns => cases failed
  | callFails arity room _ ih =>
    cases failed
    obtain ⟨at', inside⟩ := ih rfl (position.inCall _)
    exact ⟨at', .call arity room inside⟩
  | lineEnds => cases failed
  | lineFails _ ih =>
    cases failed
    obtain ⟨at', inside⟩ := ih rfl (position.inStatement _)
    exact ⟨at', .statement inside⟩
  | goesOn before _ _ ih' =>
    obtain ⟨at', after⟩ := ih' failed position
    exact ⟨at', .next before after⟩
  | stops _ ih =>
    cases failed
    obtain ⟨at', before⟩ := ih rfl position
    exact ⟨at', .first before⟩

end Plan

/-! ## Which pieces may call -/

/-- Two states are at the same line and have noted the same failure. -/
structure Machine.SamePlace (m m' : Machine) : Prop where
  line : m'.line = m.line
  failure : m'.failure = m.failure

theorem Machine.SamePlace.of_path {m m' : Machine}
    (h : Relation.ReflTransGen Machine.SamePlace m m') : m.SamePlace m' := by
  induction h with
  | refl => exact ⟨rfl, rfl⟩
  | tail _ step ih => exact ⟨step.line.trans ih.line, step.failure.trans ih.failure⟩

namespace OwnStep

variable {α : Type}

/-- A step leaves the line and the failure that have been noted. -/
def Stays (step : OwnStep α) : Prop := Goes Machine.SamePlace step.act

theorem Stays.samePlace {step : OwnStep α} (h : step.Stays) (m : Machine) :
    m.SamePlace (Outcome.machine (step.act m)) := by
  rw [← left_eq_machine]
  exact .of_path (h m)

theorem stays_onWorld (act : Act World α) : Goes Machine.SamePlace (Machine.onWorld act) :=
  fun m => .single (by
    rw [Machine.onWorld, left_on]
    exact ⟨rfl, rfl⟩)

theorem stays_give (a : α) : (give a).Stays := goes_pure a

theorem stays_ofExcept (result : Except ScriptError α) : (ofExcept result).Stays :=
  goes_ofExcept result

theorem stays_lookup? (chain : Chain) (name : String) : (lookup? chain name).Stays :=
  goes_get_bind fun m => goes_pure (m.scopes.lookup? chain name) m

theorem stays_valueOf (chain : Chain) (name : String) : (valueOf chain name).Stays := by
  change Goes Machine.SamePlace (Expr.valueOf chain name)
  unfold Expr.valueOf
  split
  · exact goes_pure _
  · refine goes_get_bind fun m => ?_
    split
    · exact goes_pure _ m
    · refine Goes.bind (stays_lookup? chain name) (fun found => ?_) m
      split
      · exact goes_pure _
      · exact goes_throw _

theorem stays_checkFree (name : String) : (checkFree name).Stays :=
  goes_get_bind fun m => by
    split
    · exact goes_throw _ m
    · exact goes_pure _ m

theorem stays_assign (chain : Chain) (name : String) (value : Value) :
    (assign chain name value).Stays := goes_modify fun _ => ⟨rfl, rfl⟩

theorem stays_declare (chain : Chain) (functions : List Function) :
    (declare chain functions).Stays := by
  change Goes Machine.SamePlace (Machine.declare chain functions)
  unfold Machine.declare
  split
  · exact goes_pure _
  · exact goes_modify fun _ => ⟨rfl, rfl⟩

theorem stays_keepValue (value : Value) : (keepValue value).Stays :=
  goes_modify fun _ => ⟨rfl, rfl⟩

theorem stays_lastValue : lastValue.Stays := goes_get_bind fun m => goes_pure m.lastValue m

theorem stays_builtin (limits : Limits) (b : Builtin) (args : List Value) :
    (builtin limits b args).Stays := stays_onWorld _

theorem stays_native (f : NativeRef) (args : List Value) (description : String) :
    (native f args description).Stays := goes_get_bind fun m => by
  split
  · exact stays_onWorld _ m
  · exact goes_throw _ m

theorem stays_method (receiver : Value) (name : String) (args : List Value) :
    (method receiver name args).Stays := stays_onWorld _

theorem stays_property (receiver : Value) (name : String) : (property receiver name).Stays :=
  goes_get_bind fun m => goes_ofExcept _ m

/-- A step gives something in every state. -/
def Succeeds (step : OwnStep α) : Prop := ∀ m, ∃ a m', step.act m = .ok a m'

theorem succeeds_give (a : α) : (give a).Succeeds := fun m => ⟨a, m, rfl⟩

theorem succeeds_lastValue : lastValue.Succeeds := fun m => ⟨_, m, rfl⟩

theorem succeeds_declare (chain : Chain) (functions : List Function) :
    (declare chain functions).Succeeds := by
  intro m
  change ∃ a m', Machine.declare chain functions m = .ok a m'
  unfold Machine.declare
  split <;> exact ⟨_, _, rfl⟩

end OwnStep

/-- What is known where a piece of a plan starts. -/
inductive Stage where
  /-- No statement of the activation is being run. -/
  | outside
  /-- The line noted is that of the innermost statement. -/
  | inLine
  /-- A statement is being run, and statements in it may have left their lines. -/
  | behind
  deriving DecidableEq

namespace Stage

/-- What is known where a statement ends. -/
def past : Stage → Stage
  | outside => outside
  | _ => behind

/-- What is known may be forgotten. -/
def Yields (s t : Stage) : Prop := t = s ∨ t = s.past

theorem past_past (s : Stage) : s.past.past = s.past := by
  cases s <;> rfl

theorem past_of_outside {s : Stage} (h : s = outside) : s.past = outside := by
  rw [h]
  rfl

theorem past_ne_inLine (s : Stage) : s.past ≠ .inLine := by
  cases s <;> nofun

end Stage

namespace Plan

variable {limits : Limits} {α β : Type} {s t u : Stage}

/-- A piece of a plan leads from one stage to another: outside of statements it does not fail, and
it calls functions in the line of the innermost statement only. -/
def Leads (s t : Stage) {α : Type} : Plan α → Prop
  | own step => s.Yields t ∧ step.Stays ∧ (s = .outside → step.Succeeds)
  | startBody => s.Yields t ∧ s ≠ .outside
  | call _ _ => s = .inLine ∧ s.Yields t
  | atLine _ steps => steps.Leads .inLine .behind ∧ t = s.past
  | bind first next => ∃ between, first.Leads s between ∧ ∀ a, (next a).Leads between t

theorem leads_pure (h : s.Yields t) (a : α) : (pure a : Plan α).Leads s t :=
  ⟨h, OwnStep.stays_give a, fun _ => OwnStep.succeeds_give a⟩

/-- In the line of a statement a step may fail. -/
theorem leads_own {step : OwnStep α} (stays : step.Stays) (h : Stage.Yields .inLine t) :
    (own step).Leads .inLine t := ⟨h, stays, nofun⟩

theorem Leads.bind {first : Plan α} {next : α → Plan β} (h : first.Leads s t)
    (h' : ∀ a, (next a).Leads t u) : (first >>= next).Leads s u := ⟨t, h, h'⟩

theorem leads_callValue (limits : Limits) (callee : Value) (args : List Value)
    (description : String) :
    (callValue limits callee args description).Leads .inLine .inLine := by
  cases callee with
  | function f => exact ⟨rfl, .inl rfl⟩
  | builtin b => exact leads_own (OwnStep.stays_builtin limits b args) (.inl rfl)
  | native f => exact leads_own (OwnStep.stays_native f args description) (.inl rfl)
  | _ => exact leads_own (OwnStep.stays_ofExcept _) (.inl rfl)

theorem leads_callMethod (limits : Limits) (receiver : Value) (name : String)
    (args : List Value) : (callMethod limits receiver name args).Leads .inLine .inLine := by
  have method := leads_own (OwnStep.stays_method receiver name args) (.inl rfl)
  cases receiver with
  | map entries =>
    unfold callMethod
    dsimp only
    cases Entries.find? entries name with
    | some f => exact leads_callValue limits f args name
    | none => exact method
  | _ => exact method

end Plan

/-! ## Expressions and assignments -/

namespace Expr

variable (limits : Limits) (chain : Chain)

mutual

/-- An expression is evaluated in the line of its statement. -/
theorem leads_plan : ∀ e : Expr, (e.plan limits chain).Leads .inLine .inLine
  | .number _ | .string _ | .bool _ | .null => by
    unfold plan
    exact Plan.leads_pure (.inl rfl) _
  | .variable name => by
    unfold plan
    exact Plan.leads_own (OwnStep.stays_valueOf chain name) (.inl rfl)
  | .binary op left right => by
    unfold plan
    exact (leads_plan left).bind fun a => (leads_plan right).bind fun b =>
      Plan.leads_own (OwnStep.stays_ofExcept _) (.inl rfl)
  | .logical op left right => by
    unfold plan
    refine (leads_plan left).bind fun a => ?_
    split
    · exact Plan.leads_pure (.inl rfl) a
    · exact leads_plan right
  | .unary op operand => by
    unfold plan
    exact (leads_plan operand).bind fun a =>
      Plan.leads_own (OwnStep.stays_ofExcept _) (.inl rfl)
  | .call callee args => by
    have inner := leads_plan callee
    have values := leads_planAll args
    cases callee with
    | property object name =>
      -- a call of a property is a call of a method
      unfold plan
      exact (leads_plan object).bind fun receiver => values.bind fun given =>
        Plan.leads_callMethod limits receiver name given
    | _ =>
      unfold plan
      exact inner.bind fun f => values.bind fun given => Plan.leads_callValue limits f given _
  | .property object name => by
    unfold plan
    exact (leads_plan object).bind fun receiver =>
      Plan.leads_own (OwnStep.stays_property receiver name) (.inl rfl)
  | .index object position => by
    unfold plan
    exact (leads_plan object).bind fun container => (leads_plan position).bind fun place =>
      Plan.leads_own (OwnStep.stays_ofExcept _) (.inl rfl)
  | .array items => by
    unfold plan
    exact (leads_planAll items).bind fun values => Plan.leads_pure (.inl rfl) _
  | .map entries => by
    unfold plan
    exact (leads_planEntries entries).bind fun values => Plan.leads_pure (.inl rfl) _

theorem leads_planAll : ∀ es : List Expr, (planAll limits chain es).Leads .inLine .inLine
  | [] => by
    unfold planAll
    exact Plan.leads_pure (.inl rfl) _
  | e :: rest => by
    unfold planAll
    exact (leads_plan e).bind fun value => (leads_planAll rest).bind fun values =>
      Plan.leads_pure (.inl rfl) _

theorem leads_planEntries : ∀ es : List (String × Expr),
    (planEntries limits chain es).Leads .inLine .inLine
  | [] => by
    unfold planEntries
    exact Plan.leads_pure (.inl rfl) _
  | (key, e) :: rest => by
    unfold planEntries
    exact (leads_plan e).bind fun value => (leads_planEntries rest).bind fun values =>
      Plan.leads_pure (.inl rfl) _

end

end Expr

namespace Target

variable (limits : Limits) (chain : Chain)

theorem leads_ofExcept {α : Type} (result : Except ScriptError α) :
    (Plan.own (.ofExcept result)).Leads .inLine .inLine :=
  Plan.leads_own (OwnStep.stays_ofExcept result) (.inl rfl)

theorem leads_storeAtPlan : ∀ (e : Expr) (op : Option Operator) (position value : Value),
    (storeAtPlan limits chain op position value e).Leads .inLine .inLine
  | .variable name, op, position, value => by
    unfold storeAtPlan
    exact (Plan.leads_own (OwnStep.stays_valueOf chain name) (.inl rfl)).bind fun container =>
      (leads_ofExcept _).bind fun value => (leads_ofExcept _).bind fun put =>
      (Plan.leads_own (OwnStep.stays_checkFree name) (.inl rfl)).bind fun _ =>
      (Plan.leads_own (OwnStep.stays_assign chain name put) (.inl rfl)).bind fun _ =>
      Plan.leads_pure (.inl rfl) value
  | .index object outer, op, position, value => by
    unfold storeAtPlan
    exact (Expr.leads_plan limits chain _).bind fun container =>
      (leads_ofExcept _).bind fun value => (leads_ofExcept _).bind fun put =>
      (Expr.leads_plan limits chain outer).bind fun outer =>
      (leads_storeAtPlan object none outer put).bind fun _ => Plan.leads_pure (.inl rfl) value
  -- nothing else can be assigned to
  | .number _, _, _, _ | .string _, _, _, _ | .bool _, _, _, _ | .null, _, _, _
  | .binary .., _, _, _ | .logical .., _, _, _ | .unary .., _, _, _ | .call .., _, _, _
  | .property .., _, _, _ | .array _, _, _, _ | .map _, _, _, _ => by
    unfold storeAtPlan
    exact (Expr.leads_plan limits chain _).bind fun container =>
      (leads_ofExcept _).bind fun value => (leads_ofExcept _).bind fun put => leads_ofExcept _

theorem leads_storePlan (op : Option Operator) (value : Value) (target : Target) :
    (target.storePlan limits chain op value).Leads .inLine .inLine := by
  rcases target with name | ⟨object, position⟩
  · exact (Plan.leads_own (OwnStep.stays_checkFree name) (.inl rfl)).bind fun _ =>
      (Plan.leads_own (OwnStep.stays_lookup? chain name) (.inl rfl)).bind fun old =>
      (leads_ofExcept _).bind fun value =>
      (Plan.leads_own (OwnStep.stays_assign chain name value) (.inl rfl)).bind fun _ =>
      Plan.leads_pure (.inl rfl) value
  · exact (Expr.leads_plan limits chain position).bind fun position =>
      leads_storeAtPlan limits chain object op position value

end Target

/-! ## Statements -/

namespace Iteration

variable {step : Value → Plan Flow} (h : ∀ v, (step v).Leads .behind .behind)
include h

theorem leads_forEachPlan (values : List Value) :
    (forEachPlan step values).Leads .behind .behind := by
  induction values with
  | nil => exact Plan.leads_pure (.inl rfl) _
  | cons v rest ih =>
    refine (h v).bind fun flow => ?_
    cases flow with
    | next => exact ih
    | leave value => exact Plan.leads_pure (.inl rfl) _

theorem leads_forCountPlan (start count : Nat) :
    (forCountPlan step start count).Leads .behind .behind := by
  induction count generalizing start with
  | zero => exact Plan.leads_pure (.inl rfl) _
  | succ count ih =>
    refine (h _).bind fun flow => ?_
    cases flow with
    | next => exact ih (start + 1)
    | leave value => exact Plan.leads_pure (.inl rfl) _

theorem leads_plan (iteration : Iteration) : (iteration.plan step).Leads .behind .behind := by
  cases iteration with
  | items values => exact leads_forEachPlan h values
  | upTo count => exact leads_forCountPlan h 0 count

end Iteration

namespace Stmt

variable (limits : Limits) (chain : Chain)

/-- The functions of a block are bound at every stage. -/
theorem leads_declare (block : List Stmt) (s : Stage) :
    (Plan.own (.declare chain (functions block))).Leads s s :=
  ⟨.inl rfl, OwnStep.stays_declare chain _, fun _ => OwnStep.succeeds_declare chain _⟩

mutual

/-- A statement is run in its line, and leaves a line behind. -/
theorem leads_plan : ∀ (stmt : Stmt) (s : Stage), (stmt.plan limits chain).Leads s s.past
  | .expression line value, s => by
    unfold plan
    refine ⟨?_, rfl⟩
    exact (Expr.leads_plan limits chain value).bind fun v =>
      (Plan.leads_own (OwnStep.stays_keepValue v) (.inl rfl)).bind fun _ =>
      Plan.leads_pure (.inr rfl) _
  | .assign line target op value, s => by
    unfold plan
    refine ⟨?_, rfl⟩
    exact (Expr.leads_plan limits chain value).bind fun v =>
      (Target.leads_storePlan limits chain op v target).bind fun v =>
      (Plan.leads_own (OwnStep.stays_keepValue v) (.inl rfl)).bind fun _ =>
      Plan.leads_pure (.inr rfl) _
  | .choose line branches otherwise, s => by
    unfold plan
    exact ⟨leads_planBranches (leads_planOtherwise otherwise) branches, rfl⟩
  | .loop line name items body, s => by
    unfold plan
    refine ⟨?_, rfl⟩
    refine (Expr.leads_plan limits chain items).bind fun v =>
      (Plan.leads_own (OwnStep.stays_ofExcept _) (.inr rfl)).bind fun iteration =>
      Iteration.leads_plan (fun item => ?_) iteration
    have start : Plan.startBody.Leads .behind .behind := ⟨.inl rfl, nofun⟩
    have bound : (Plan.own (.assign chain name item)).Leads .behind .behind :=
      ⟨.inl rfl, OwnStep.stays_assign chain name item, nofun⟩
    exact start.bind fun _ => bound.bind fun _ =>
      (leads_declare chain body .behind).bind fun _ => leads_planAll body .behind
  | .function line _ _ _, s => by
    unfold plan
    exact ⟨Plan.leads_pure (.inr rfl) _, rfl⟩
  | .leave line value, s => by
    unfold plan
    refine ⟨?_, rfl⟩
    cases value with
    | some e =>
      exact (Expr.leads_plan limits chain e).bind fun v => Plan.leads_pure (.inr rfl) _
    | none => exact Plan.leads_pure (.inr rfl) _

theorem leads_planBranches {last : Plan Flow} (h : last.Leads .inLine .behind) :
    ∀ branches : List (Expr × List Stmt),
      (planBranches limits chain last branches).Leads .inLine .behind
  | [] => by
    unfold planBranches
    exact h
  | (condition, body) :: rest => by
    unfold planBranches
    refine (Expr.leads_plan limits chain condition).bind fun v => ?_
    split
    · exact (leads_declare chain body .inLine).bind fun _ => leads_planAll body .inLine
    · exact leads_planBranches h rest

theorem leads_planOtherwise : ∀ otherwise : Option (List Stmt),
    (planOtherwise limits chain otherwise).Leads .inLine .behind
  | none => by
    unfold planOtherwise
    exact Plan.leads_pure (.inr rfl) _
  | some body => by
    unfold planOtherwise
    exact (leads_declare chain body .inLine).bind fun _ => leads_planAll body .inLine

theorem leads_planAll : ∀ (block : List Stmt) (s : Stage),
    (planAll limits chain block).Leads s s.past
  | [], s => by
    unfold planAll
    exact Plan.leads_pure (.inr rfl) _
  | stmt :: rest, s => by
    unfold planAll
    refine (leads_plan stmt s).bind fun flow => ?_
    cases flow with
    | next =>
      have later := leads_planAll rest s.past
      rwa [s.past_past] at later
    | leave value => exact Plan.leads_pure (.inl rfl) _

end

/-- A block is run at every stage. -/
theorem leads_planBlock (block : List Stmt) (s : Stage) :
    (planBlock limits chain block).Leads s s.past :=
  (leads_declare chain block s).bind fun _ => leads_planAll limits chain block s

end Stmt

/-- A program starts outside of statements. -/
theorem Program.leads_plan (limits : Limits) (p : Program) :
    (p.plan limits).Leads .outside .outside := by
  refine (Stmt.leads_planBlock limits topLevel p.statements .outside).bind fun flow => ?_
  cases flow with
  | next => exact ⟨.inl rfl, OwnStep.stays_lastValue, fun _ => OwnStep.succeeds_lastValue⟩
  | leave value => exact Plan.leads_pure (.inl rfl) value

/-! ## What is noted -/

namespace Plan

variable {limits : Limits} {α : Type} {m m' : Machine} {position at' : Position}
  {e : ScriptError} {p : Plan α} {s t : Stage}

/-- A piece of a plan that comes to its end notes no failure. Where it leads to the line of the
innermost statement it has not left that line, and from outside of statements it leads outside. -/
theorem Leads.kept {r : Outcome α} {moments : List Moment} {a : α} (h : p.Leads s t)
    (runs : Runs limits p m moments r) (ends : r = .ok a m') :
    m'.failure = m.failure ∧ (t = .inLine → s = .inLine ∧ m'.line = m.line) ∧
      (s = .outside → t = .outside) := by
  have yields : ∀ {s t : Stage} {m m' : Machine}, s.Yields t → m.SamePlace m' →
      m'.failure = m.failure ∧ (t = .inLine → s = .inLine ∧ m'.line = m.line) ∧
        (s = .outside → t = .outside) := by
    rintro s t m m' (rfl | rfl) same
    · exact ⟨same.failure, fun inLine => ⟨inLine, same.line⟩, fun outside => outside⟩
    · exact ⟨same.failure, fun inLine => absurd inLine s.past_ne_inLine, Stage.past_of_outside⟩
  induction runs generalizing s t m' with
  | own step m =>
    have same := h.2.1.samePlace m
    rw [ends] at same
    exact yields h.1 same
  | bodyStarts =>
    cases ends
    exact yields h.1 ⟨rfl, rfl⟩
  | callReturns _ _ _ ih =>
    cases ends
    have inside := ih (Stmt.leads_planBlock limits _ _ .outside) rfl
    exact yields h.2 ⟨rfl, inside.1⟩
  | lineEnds _ ih =>
    obtain ⟨h, rfl⟩ := h
    have inside := ih h ends
    exact ⟨inside.1, fun inLine => absurd inLine s.past_ne_inLine, Stage.past_of_outside⟩
  | goesOn _ _ ih ih' =>
    obtain ⟨between, h, h'⟩ := h
    obtain ⟨same, line, outside⟩ := ih h rfl
    obtain ⟨same', line', outside'⟩ := ih' (h' _) ends
    refine ⟨same'.trans same, fun inLine => ?_, fun out => outside' (outside out)⟩
    obtain ⟨between, line'⟩ := line' inLine
    obtain ⟨start, line⟩ := line between
    exact ⟨start, line'.trans line⟩
  | bodyRefused | argsRefused | callRefused | callFails | lineFails | stops => cases ends

end Plan

/-- The calls that are noted are those of a position, each with the line of the innermost statement
of the one that made it. -/
inductive Position.Noted : Position → List CallFrame → Prop
  | script (lines : List Nat) : Noted [⟨"<script>", lines⟩] []
  | call {position : Position} {frames : List CallFrame} {line : Nat} (name : String)
      (lines : List Nat) (made : position.line? = some line) (rest : Noted position frames) :
      Noted (⟨name, lines⟩ :: position) (⟨name, line⟩ :: frames)

namespace Position.Noted

variable {position : Position} {frames : List CallFrame}

theorem inStatement (h : Noted position frames) (line : Nat) :
    Noted (position.inStatement line) frames := by
  cases h with
  | script lines => exact .script _
  | call name lines made rest => exact .call name _ made rest

theorem line?_inStatement (h : Noted position frames) (line : Nat) :
    (position.inStatement line).line? = some line := by
  cases h <;> rfl

/-- What is noted describes the position. -/
theorem describes (h : Noted position frames) (e : ScriptError) {line : Nat}
    (innermost : position.line? = some line) :
    Failure.Describes ⟨e, some line, Machine.trace frames line⟩ position := by
  refine ⟨⟨line, innermost, rfl⟩, ?_, ?_⟩
  · change List.Forall₂ _ _ (Machine.trace frames line)
    induction h generalizing line with
    | script lines => exact .cons ⟨line, innermost, rfl⟩ .nil
    | call name lines made _ ih => exact .cons ⟨line, innermost, rfl⟩ (ih made)
  · clear innermost
    induction h with
    | script lines => exact ⟨[], lines, rfl⟩
    | call name lines _ _ ih =>
      obtain ⟨calls, script, rfl⟩ := ih
      exact ⟨⟨name, lines⟩ :: calls, script, rfl⟩

end Position.Noted

namespace Plan

variable {limits : Limits} {α : Type} {m m' : Machine} {position at' : Position}
  {e : ScriptError} {p : Plan α} {s t : Stage}

/-- A failure that has been noted stays. -/
theorem noteFailure_of_describes (h : (m.failureOf e).Describes at') (line : Nat) :
    m.noteFailure line = m := by
  obtain ⟨_, -, noted⟩ := h.line
  unfold Machine.noteFailure
  unfold Machine.failureOf at noted
  cases failure : m.failure with
  | some failure => rfl
  | none =>
    rw [failure] at noted
    cases noted

/-- **What is noted of a failure describes where it arises**, or nothing has been noted: then it
arises in a statement that is being run where the piece of a plan starts. -/
theorem Fails.noted (h : Fails limits p m position at' e m') (leads : p.Leads s t)
    (noted : position.Noted m.frames) (here : s = .inLine → position.line? = some m.line)
    (clean : m.failure = none) :
    (at' = position ∧ s ≠ .outside ∧ m'.failure = none) ∨ (m'.failureOf e).Describes at' := by
  induction h generalizing s t with
  | @own _ step m m' _ fails position =>
    have same := leads.2.1.samePlace m
    rw [fails] at same
    refine .inl ⟨rfl, fun outside => ?_, same.failure.trans clean⟩
    obtain ⟨a, m'', succeeds⟩ := leads.2.2 outside m
    cases fails.symm.trans succeeds
  | bodyRefused => exact .inl ⟨rfl, leads.2, clean⟩
  | argsRefused | callRefused =>
    refine .inl ⟨rfl, fun outside => ?_, clean⟩
    cases outside.symm.trans leads.1
  | call _ _ _ ih =>
    -- the body of a function starts outside of statements
    have called := ih (Stmt.leads_planBlock limits _ _ .outside)
      (.call _ [] (here leads.1) noted) nofun clean
    exact called.imp_left fun inside => absurd rfl inside.2.1
  | @statement _ line _ m m' position _ e inside ih =>
    obtain ⟨moments, runs⟩ := inside.runs
    have frames : m'.frames = m.frames := runs.frames_eq
    have innermost := noted.line?_inStatement line
    refine .inr ?_
    obtain ⟨rfl, -, none⟩ | described :=
      ih leads.1 (noted.inStatement line) (fun _ => innermost) clean
    · have described := (noted.inStatement line).describes e innermost
      unfold Machine.noteFailure Machine.failureOf
      rw [none]
      dsimp only
      rwa [frames]
    · rwa [noteFailure_of_describes described line]
  | first _ ih =>
    obtain ⟨between, first, -⟩ := leads
    exact ih first noted here clean
  | @next _ _ _ _ m m' _ _ _ position _ _ before _ ih =>
    obtain ⟨between, first, next⟩ := leads
    obtain ⟨same, line, outside⟩ := first.kept before rfl
    have frames : m'.frames = m.frames := before.frames_eq
    have later := ih (next _) (frames ▸ noted) (fun inLine => ?_) (same.trans clean)
    · exact later.imp_left fun h => ⟨h.1, fun start => h.2.1 (outside start), h.2.2⟩
    · obtain ⟨start, line⟩ := line inLine
      rw [line]
      exact here start

end Plan

/-! ## Programs -/

namespace Program

/-- In a run of a program in a world, a failure arises at a position. -/
def FailsAt (limits : Limits) (p : Program) (world : World) (e : ScriptError)
    (position : Position) : Prop :=
  ∃ m, Plan.Fails limits (p.plan limits) { world := world } Position.script position e m

/-- **The line and the trace of a failure are those of the calls that are active.** A run of a
program that fails does so at some position, and wherever it does, its failure has the line of the
innermost statement that is being run there; its trace has an entry for each call that is active,
the innermost first, and then one for the script, each with the line of the innermost statement
that is being run in it. -/
theorem failure_describes {limits : Limits} {p : Program} {world : World} {failure : Failure}
    (h : (p.run limits world).1.failure = some failure) :
    (∃ position, p.FailsAt limits world failure.error position) ∧
      ∀ position, p.FailsAt limits world failure.error position → failure.Describes position := by
  obtain ⟨moments, r, runs⟩ := Plan.exists_runs limits (p.plan limits) { world := world }
  have performed : p.exec limits { world := world } = r := by
    rw [← perform_plan]
    exact runs.eq_perform
  unfold run Run.start at h
  rw [performed] at h
  cases r with
  | ok value m => cases h
  | error e m =>
    obtain rfl : m.failureOf e = failure := Option.some.inj h
    have error : (m.failureOf e).error = e := by
      unfold Machine.failureOf
      split <;> rfl
    rw [error]
    refine ⟨?_, ?_⟩
    · obtain ⟨position, fails⟩ := runs.exists_fails rfl Position.script
      exact ⟨position, m, fails⟩
    · rintro position ⟨m', fails⟩
      obtain ⟨moments', runs'⟩ := fails.runs
      obtain rfl : m = m' := by cases runs.eq_perform.symm.trans runs'.eq_perform; rfl
      have noted := fails.noted (p.leads_plan limits) (.script []) nofun rfl
      exact noted.resolve_left fun inside => inside.2.1 rfl

end Program

/-- A function that fails, called by one that calls it in a branch; the script calls that one in a
loop. -/
def deepFailing : Program where
  statements :=
    [.function 1 "inner" [] [.leave 2 (some (.unary .not (.variable "missing")))],
      .function 3 "outer" []
        [.choose 4 [(.bool true, [.leave 5 (some (.call (.variable "inner") []))])] none],
      .loop 6 "item" (.array [.string "a", .string "b"])
        [.expression 7 (.call (.variable "outer") []), .expression 8 .null]]

theorem deepFailing_failure_describes :
    (deepFailing.run {} ⟨{}, {}⟩).1.failure = some ⟨.undefinedVariable "missing", some 2,
      ["at inner (line 2)", "at outer (line 5)", "at <script> (line 7)"]⟩ ∧
    ∃ position, deepFailing.FailsAt {} ⟨{}, {}⟩ (.undefinedVariable "missing") position ∧
      Failure.Describes ⟨.undefinedVariable "missing", some 2,
        ["at inner (line 2)", "at outer (line 5)", "at <script> (line 7)"]⟩ position := by
  have fails : (deepFailing.run {} ⟨{}, {}⟩).1.failure = some ⟨.undefinedVariable "missing", some 2,
      ["at inner (line 2)", "at outer (line 5)", "at <script> (line 7)"]⟩ := by decide +kernel
  obtain ⟨⟨position, failsAt⟩, describes⟩ := Program.failure_describes fails
  exact ⟨fails, position, failsAt, describes position failsAt⟩

end SheetScript
