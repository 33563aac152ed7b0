import SheetScript.Proofs.Run.Termination

/-!
# The log of a run

The log of a run lists its deeds in order: each step of its own, and each time that the body of a
declared function is entered, with the state in which that happens. In between, nothing happens to
the variables and the world of the run.

* `Plan.log` and `Plan.logCall` carry out a plan and a call and write the log. `Plan.log_eq`:
  writing the log changes nothing.
* `Deed.Trail`: each deed starts with the variables and the world that the one before it left.
  `Plan.trail_log`: the log of a plan is such a trail, from the state before to the state after.
* `Program.Logs` are the logs of a program: of its run, and of an event.
-/

namespace SheetScript

/-! ## Deeds -/

/-- What a run does to its variables and its world, and in which state it does that. -/
inductive Deed : Type 1
  | own {α : Type} (step : OwnStep α) (m : Machine)
  /-- The body of a declared function is entered. -/
  | enter (f : Closure) (args : List Value) (m : Machine)

namespace Deed

/-- The state before a deed. -/
def before : Deed → Machine
  | own _ m => m
  | enter _ _ m => m

/-- The state after a deed. -/
def after : Deed → Machine
  | own step m => step.act.left m
  | enter f args m => m.enter f args

end Deed

/-- Two states have the same variables and the same world. -/
structure Machine.SameStore (m m' : Machine) : Prop where
  world : m'.world = m.world
  scopes : m'.scopes = m.scopes

namespace Machine.SameStore

variable {m m' m'' : Machine}

protected theorem refl (m : Machine) : m.SameStore m := ⟨rfl, rfl⟩

theorem trans (h : m.SameStore m') (h' : m'.SameStore m'') : m.SameStore m'' :=
  ⟨h'.world.trans h.world, h'.scopes.trans h.scopes⟩

end Machine.SameStore

theorem Machine.sameStore_noteFailure (m : Machine) (line : Nat) :
    m.SameStore (m.noteFailure line) := by
  unfold noteFailure
  split <;> exact ⟨rfl, rfl⟩

/-- Deeds on the way from a state to another: each starts with the variables and the world that the
one before it left. -/
inductive Deed.Trail : Machine → List Deed → Machine → Prop
  | nil {m m' : Machine} (same : m.SameStore m') : Trail m [] m'
  | cons {m m' : Machine} {d : Deed} {rest : List Deed} (same : m.SameStore d.before)
      (onward : Trail d.after rest m') : Trail m (d :: rest) m'

namespace Deed.Trail

variable {m m₁ m' : Machine} {log more : List Deed} {d : Deed}

theorem to_same (h : Trail m log m₁) (same : m₁.SameStore m') : Trail m log m' := by
  induction h with
  | nil start => exact .nil (start.trans same)
  | cons start _ ih => exact .cons start (ih same)

theorem from_same (same : m.SameStore m₁) (h : Trail m₁ log m') : Trail m log m' := by
  cases h with
  | nil start => exact .nil (same.trans start)
  | cons start onward => exact .cons (same.trans start) onward

theorem append (h : Trail m log m₁) (h' : Trail m₁ more m') : Trail m (log ++ more) m' := by
  induction h with
  | nil same => exact from_same same h'
  | cons same _ ih => exact .cons same (ih h')

/-- Before and after any of its deeds, a trail is a trail. -/
theorem split (h : Trail m (log ++ d :: more) m') :
    Trail m log d.before ∧ Trail d.after more m' := by
  induction log generalizing m with
  | nil =>
    cases h with
    | cons same onward => exact ⟨.nil same, onward⟩
  | cons first log ih =>
    cases h with
    | cons same onward =>
      obtain ⟨front, back⟩ := ih onward
      exact ⟨.cons same front, back⟩

/-- What each deed keeps is kept along a trail, if it is about the variables and the world. -/
theorem induction {P : Machine → Prop} (h : Trail m log m')
    (same : ∀ {m m' : Machine}, m.SameStore m' → P m → P m')
    (step : ∀ d ∈ log, P d.before → P d.after) (start : P m) : P m' := by
  induction h with
  | nil unchanged => exact same unchanged start
  | cons unchanged _ ih =>
    obtain ⟨first, later⟩ := List.forall_mem_cons.1 step
    exact ih later (first (same unchanged start))

end Deed.Trail

/-! ## Writing the log -/

namespace Plan

variable {α β : Type}

/-- Carry a plan out and write the log. What a call does, and its log, is a parameter. -/
def log (limits : Limits) (called : Closure → List Value → Machine → List Deed × Outcome Value)
    {α : Type} : Plan α → Machine → List Deed × Outcome α
  | own step, m => ([.own step m], step.act m)
  | startBody, m => ([], Machine.startStep limits m)
  | call f args, m => called f args m
  | atLine line steps, m =>
    match steps.log limits called { m with line := line } with
    | (deeds, .ok a m) => (deeds, .ok a m)
    | (deeds, .error e m) => (deeds, .error e (m.noteFailure line))
  | bind first next, m =>
    match first.log limits called m with
    | (deeds, .ok a m) =>
      let (more, r) := (next a).log limits called m
      (deeds ++ more, r)
    | (deeds, .error e m) => (deeds, .error e m)

/-- Call a declared function and write the log. -/
def logCall (limits : Limits) : Nat → Closure → List Value → Machine → List Deed × Outcome Value
  | 0, f, args, m => ([], invokeAt limits 0 f args m)
  | depth + 1, f, args, m =>
    match f.arity args with
    | .error e => ([], .error e m)
    | .ok () =>
      match (Stmt.planBlock limits (m.scopes.size :: f.scopes) f.decl.body).log limits
        (logCall limits depth) (m.enter f args) with
      | (deeds, .ok flow m') => (.enter f args m :: deeds, .ok flow.result (m'.comeBack m.line))
      | (deeds, .error e m') => (.enter f args m :: deeds, .error e (m'.comeBack m.line))

variable {called : Closure → List Value → Machine → List Deed × Outcome Value}

/-- Writing the log does not change what a plan comes to. -/
theorem log_eq (rules : Rules)
    (same : ∀ f args m, (called f args m).2 = rules.invoke f args m) (p : Plan α) (m : Machine) :
    (p.log rules.limits called m).2 = p.perform rules m := by
  induction p generalizing m with
  | own step => rfl
  | startBody => rfl
  | call f args => exact same f args m
  | atLine line steps ih =>
    rw [log, perform_atLine, Machine.atLine, ← ih]
    obtain ⟨deeds, r⟩ := steps.log rules.limits called { m with line := line }
    cases r with
    | ok a m => rfl
    | error e m => rfl
  | bind first next ih ih' =>
    change _ = EStateM.bind (first.perform rules) (fun a => (next a).perform rules) m
    rw [log, EStateM.bind, ← ih]
    obtain ⟨deeds, r⟩ := first.log rules.limits called m
    cases r with
    | ok a m => exact ih' a m
    | error e m => rfl

theorem logCall_eq (limits : Limits) (depth : Nat) (f : Closure) (args : List Value)
    (m : Machine) : (logCall limits depth f args m).2 = invokeAt limits depth f args m := by
  induction depth generalizing f args m with
  | zero => rfl
  | succ depth ih =>
    rw [logCall]
    cases arity : f.arity args with
    | error e => exact (invokeAt_of_argsRefused arity _).symm
    | ok =>
      rw [invokeAt_succ arity, ← Stmt.perform_planBlock,
        ← log_eq ⟨limits, invokeAt limits depth⟩ ih]
      dsimp only
      generalize log limits _ _ _ = logged
      obtain ⟨deeds, r⟩ := logged
      cases r with
      | ok flow m' => rfl
      | error e m' => rfl

/-- **A log is a trail**, if the logs of the calls are. -/
theorem trail_log (limits : Limits)
    (calls : ∀ f args m, Deed.Trail m (called f args m).1 (called f args m).2.machine)
    (p : Plan α) (m : Machine) :
    Deed.Trail m (p.log limits called m).1 (p.log limits called m).2.machine := by
  induction p generalizing m with
  | own step =>
    refine .cons (.refl m) (.nil ?_)
    change Machine.SameStore (step.act.left m) (Outcome.machine (step.act m))
    rw [Act.left_eq_machine]
    exact .refl _
  | startBody =>
    rw [log, Machine.startStep]
    split <;> exact .nil ⟨rfl, rfl⟩
  | call f args => exact calls f args m
  | atLine line steps ih =>
    have same : m.SameStore { m with line := line } := ⟨rfl, rfl⟩
    have inside := (ih { m with line := line }).from_same same
    rw [log]
    generalize steps.log limits called { m with line := line } = logged at inside ⊢
    obtain ⟨deeds, r⟩ := logged
    cases r with
    | ok a m' => exact inside
    | error e m' => exact inside.to_same (m'.sameStore_noteFailure line)
  | bind first next ih ih' =>
    have before := ih m
    rw [log]
    generalize first.log limits called m = logged at before ⊢
    obtain ⟨deeds, r⟩ := logged
    cases r with
    | ok a m' => exact before.append (ih' a m')
    | error e m' => exact before

theorem trail_logCall (limits : Limits) (depth : Nat) (f : Closure) (args : List Value)
    (m : Machine) :
    Deed.Trail m (logCall limits depth f args m).1 (logCall limits depth f args m).2.machine := by
  induction depth generalizing f args m with
  | zero =>
    obtain ⟨e, refused⟩ := invokeAt_zero limits f args m
    rw [logCall, refused]
    exact .nil (.refl m)
  | succ depth ih =>
    rw [logCall]
    cases f.arity args with
    | error e => exact .nil (.refl m)
    | ok =>
      have inside := trail_log limits ih
        (Stmt.planBlock limits (m.scopes.size :: f.scopes) f.decl.body) (m.enter f args)
      dsimp only
      generalize log limits _ _ _ = logged at inside ⊢
      obtain ⟨deeds, r⟩ := logged
      cases r with
      | ok flow m' => exact .cons (.refl m) (inside.to_same ⟨rfl, rfl⟩)
      | error e m' => exact .cons (.refl m) (inside.to_same ⟨rfl, rfl⟩)

/-- Carry a plan out with so many calls allowed, and write the log. -/
def logAt (limits : Limits) (depth : Nat) (p : Plan α) (m : Machine) : List Deed × Outcome α :=
  p.log limits (logCall limits depth) m

theorem logAt_eq (limits : Limits) (depth : Nat) (p : Plan α) (m : Machine) :
    (p.logAt limits depth m).2 = p.perform ⟨limits, invokeAt limits depth⟩ m :=
  log_eq ⟨limits, invokeAt limits depth⟩ (logCall_eq limits depth) p m

theorem trail_logAt (limits : Limits) (depth : Nat) (p : Plan α) (m : Machine) :
    Deed.Trail m (p.logAt limits depth m).1 (p.logAt limits depth m).2.machine :=
  trail_log limits (trail_logCall limits depth) p m

end Plan

/-! ## Programs -/

namespace Program

variable (limits : Limits) (p : Program) (world : World)

/-- The log of a run of a program in a world. -/
def log : List Deed := ((p.plan limits).logAt limits limits.maxCallDepth { world := world }).1

/-- The log of a run of a program in a world and of the call of one of its functions after it. -/
def logEvent (name : String) (args : List Value) : List Deed :=
  ((p.eventPlan limits name args).logAt limits limits.maxCallDepth { world := world }).1

/-- The logs of a program in a world, with the states in which the runs end. -/
inductive Logs : List Deed → Machine → Prop
  | run : Logs (p.log limits world) ((p.exec limits).left { world := world })
  | event (name : String) (args : List Value) :
      Logs (p.logEvent limits world name args)
        ((p.execEvent limits name args).left { world := world })

variable {limits p world}

/-- **The log of a run leads from its start to its end.** -/
theorem Logs.trail {log : List Deed} {m : Machine} (h : p.Logs limits world log m) :
    Deed.Trail { world := world } log m := by
  cases h with
  | run =>
    rw [Act.left_eq_machine, ← perform_plan, Rules.ofLimits, ← Plan.logAt_eq]
    exact Plan.trail_logAt ..
  | event name args =>
    rw [Act.left_eq_machine, ← perform_eventPlan, Rules.ofLimits, ← Plan.logAt_eq]
    exact Plan.trail_logAt ..

end Program

end SheetScript
