import SheetScript.Proofs.Run.Plan

/-!
# Runs end within their budgets

A run looks at its budgets where a loop body starts and where a declared function is called; a call
is refused when as many calls are active as may be.

* `Plan.Runs` says how a plan is carried out when nothing but these two looks stops it. A call goes
  on with the plan of the function that is called, whatever that is, so this relation does not end
  by its definition. It shows the moments that the budgets count (`Moment`).
* `Plan.exists_runs`: every run ends. A call leaves one call less that may become active, and within
  a call the plan gets smaller.
* `Plan.Runs.eq_perform`: a run comes to what the interpreter gives.
* `Plan.Runs.frames_eq` and `Plan.Runs.nested`: calls are nested, and the active calls after a call
  are those before it. `Plan.Runs.length_le` and `Plan.Runs.iterations`: no budget is overdrawn.
* `Program.ends_within_budgets` is the statement about programs and events.
-/

namespace SheetScript

/-! ## Moments -/

/-- What a run shows of itself. -/
inductive Moment where
  /-- A loop body starts. -/
  | body
  /-- A call has become active; the active calls with it. -/
  | enter (frames : List CallFrame)
  /-- A call has come to its end, by a value or by a failure; the active calls after it. -/
  | leave (frames : List CallFrame)
  deriving DecidableEq, Repr

/-- Calls are nested, and after each of them the active calls are those before it, which are `s`
outside of all calls. -/
inductive Moment.Nested : List CallFrame → List Moment → Prop
  | nil (s : List CallFrame) : Nested s []
  | body {s : List CallFrame} {t : List Moment} (rest : Nested s t) : Nested s (.body :: t)
  | call {s : List CallFrame} {t t' : List Moment} (frame : CallFrame)
      (inside : Nested (frame :: s) t) (rest : Nested s t') :
      Nested s (.enter (frame :: s) :: (t ++ .leave s :: t'))

theorem Moment.Nested.append {s : List CallFrame} {t t' : List Moment} (h : Nested s t)
    (h' : Nested s t') : Nested s (t ++ t') := by
  induction h with
  | nil => exact h'
  | body _ ih => exact .body (ih h')
  | call frame inside _ _ ih =>
    rw [List.cons_append, List.append_assoc, List.cons_append]
    exact .call frame inside (ih h')

/-! ## Runs of plans -/

/-- The value of a call whose body has ended. -/
def Flow.result : Flow → Value
  | .leave value => value
  | .next => .null

/-- What a step comes to. -/
abbrev Outcome (α : Type) := EStateM.Result ScriptError Machine α

/-- The state in which a step ends. -/
def Outcome.machine {α : Type} : Outcome α → Machine
  | .ok _ m => m
  | .error _ m => m

theorem Act.left_eq_machine {α : Type} (act : Run α) (m : Machine) :
    act.left m = Outcome.machine (act m) := by
  unfold left Outcome.machine
  cases act m with
  | ok a m' => rfl
  | error e m' => rfl

namespace Machine

/-- The state in which the body of a function starts. -/
def enter (m : Machine) (f : Closure) (args : List Value) : Machine :=
  { m with
    scopes := m.scopes.push (Entries.ofList (f.decl.params.zip args))
    frames := ⟨f.decl.name, m.line⟩ :: m.frames }

/-- The state after a call that was made on a line. -/
def comeBack (m : Machine) (line : Nat) : Machine :=
  { m with frames := m.frames.drop 1, line := line }

end Machine

/-- How many arguments a function takes is looked at first. -/
abbrev Closure.arity (f : Closure) (args : List Value) : Except ScriptError Unit :=
  checkArity f.decl.name args f.decl.params.length

namespace Plan

variable {limits : Limits} {α β : Type} {m m' : Machine} {t t' : List Moment}

/-- From a state, a plan is carried out with an outcome, and shows some moments. -/
inductive Runs (limits : Limits) :
    {α : Type} → Plan α → Machine → List Moment → Outcome α → Prop
  | own {α : Type} (step : OwnStep α) (m : Machine) : Runs limits (.own step) m [] (step.act m)
  | bodyStarts {m : Machine} (room : m.iterations < limits.maxLoopIterations) :
      Runs limits .startBody m [.body] (.ok () { m with iterations := m.iterations + 1 })
  | bodyRefused {m : Machine} (full : limits.maxLoopIterations ≤ m.iterations) :
      Runs limits .startBody m [] (.error (.iterationLimit limits.maxLoopIterations) m)
  | argsRefused {f : Closure} {args : List Value} {m : Machine} {e : ScriptError}
      (arity : f.arity args = .error e) : Runs limits (.call f args) m [] (.error e m)
  | callRefused {f : Closure} {args : List Value} {m : Machine} (arity : f.arity args = .ok ())
      (full : limits.maxCallDepth ≤ m.frames.length) :
      Runs limits (.call f args) m [] (.error (.stackOverflow limits.maxCallDepth) m)
  | callReturns {f : Closure} {args : List Value} {m m' : Machine} {t : List Moment} {flow : Flow}
      (arity : f.arity args = .ok ()) (room : m.frames.length < limits.maxCallDepth)
      (inside : Runs limits (Stmt.planBlock limits (m.scopes.size :: f.scopes) f.decl.body)
        (m.enter f args) t (.ok flow m')) :
      Runs limits (.call f args) m
        (.enter (m.enter f args).frames :: (t ++ [.leave (m'.comeBack m.line).frames]))
        (.ok flow.result (m'.comeBack m.line))
  | callFails {f : Closure} {args : List Value} {m m' : Machine} {t : List Moment}
      {e : ScriptError} (arity : f.arity args = .ok ())
      (room : m.frames.length < limits.maxCallDepth)
      (inside : Runs limits (Stmt.planBlock limits (m.scopes.size :: f.scopes) f.decl.body)
        (m.enter f args) t (.error e m')) :
      Runs limits (.call f args) m
        (.enter (m.enter f args).frames :: (t ++ [.leave (m'.comeBack m.line).frames]))
        (.error e (m'.comeBack m.line))
  | lineEnds {α : Type} {line : Nat} {steps : Plan α} {m m' : Machine} {t : List Moment} {a : α}
      (inside : Runs limits steps { m with line := line } t (.ok a m')) :
      Runs limits (.atLine line steps) m t (.ok a m')
  | lineFails {α : Type} {line : Nat} {steps : Plan α} {m m' : Machine} {t : List Moment}
      {e : ScriptError} (inside : Runs limits steps { m with line := line } t (.error e m')) :
      Runs limits (.atLine line steps) m t (.error e (m'.noteFailure line))
  | goesOn {α β : Type} {first : Plan α} {next : α → Plan β} {m m' : Machine}
      {t t' : List Moment} {a : α} {r : Outcome β} (before : Runs limits first m t (.ok a m'))
      (after : Runs limits (next a) m' t' r) : Runs limits (.bind first next) m (t ++ t') r
  | stops {α β : Type} {first : Plan α} {next : α → Plan β} {m m' : Machine} {t : List Moment}
      {e : ScriptError} (before : Runs limits first m t (.error e m')) :
      Runs limits (.bind first next) m t (.error e m')

/-! ## What a run keeps -/

theorem usesSame_own (step : OwnStep α) (m : Machine) :
    m.UsesSame (Outcome.machine (step.act m)) := by
  have kept := step.usesSame m
  unfold Act.left at kept
  cases run : step.act m with
  | ok a m' => rwa [run] at kept
  | error e m' => rwa [run] at kept

theorem usesSame_noteFailure (m : Machine) (line : Nat) : m.UsesSame (m.noteFailure line) := by
  unfold Machine.noteFailure
  split <;> exact ⟨rfl, rfl⟩

variable {p : Plan α} {r : Outcome α}

/-- The active calls after a run are those before it. -/
theorem Runs.frames_eq (h : Runs limits p m t r) : r.machine.frames = m.frames := by
  induction h with
  | own step m => exact (usesSame_own step m).frames
  | bodyStarts | bodyRefused | argsRefused | callRefused => rfl
  | callReturns _ _ _ ih => exact congrArg (List.drop 1) ih
  | callFails _ _ _ ih => exact congrArg (List.drop 1) ih
  | lineEnds _ ih => exact ih
  | lineFails _ ih => exact (usesSame_noteFailure _ _).frames.trans ih
  | goesOn _ _ ih ih' => exact ih'.trans ih
  | stops _ ih => exact ih

/-- Calls are nested, and after each call the active calls are those before it. -/
theorem Runs.nested (h : Runs limits p m t r) : Moment.Nested m.frames t := by
  have back : ∀ (f : Closure) (args : List Value) (m m' : Machine) (t : List Moment),
      m'.frames = (m.enter f args).frames → Moment.Nested (m.enter f args).frames t →
      Moment.Nested m.frames
        (.enter (m.enter f args).frames :: (t ++ [.leave (m'.comeBack m.line).frames])) := by
    intro f args m m' t kept inside
    have dropped : (m'.comeBack m.line).frames = m.frames := congrArg (List.drop 1) kept
    rw [dropped]
    exact .call ⟨f.decl.name, m.line⟩ inside (.nil _)
  induction h with
  | own | bodyRefused | argsRefused | callRefused => exact .nil _
  | bodyStarts => exact .body (.nil _)
  | callReturns _ _ inside ih => exact back _ _ _ _ _ inside.frames_eq ih
  | callFails _ _ inside ih => exact back _ _ _ _ _ inside.frames_eq ih
  | lineEnds _ ih => exact ih
  | lineFails _ ih => exact ih
  | goesOn before _ ih ih' =>
    have kept : _ = _ := before.frames_eq
    exact ih.append (kept ▸ ih')
  | stops _ ih => exact ih

/-- No more calls become active than may be. -/
theorem Runs.length_le (h : Runs limits p m t r) :
    ∀ frames, .enter frames ∈ t → frames.length ≤ limits.maxCallDepth := by
  have entered : ∀ (f : Closure) (args : List Value) (m : Machine) (t : List Moment)
      (after frames : List CallFrame), m.frames.length < limits.maxCallDepth →
      (.enter frames ∈ t → frames.length ≤ limits.maxCallDepth) →
      .enter frames ∈ .enter (m.enter f args).frames :: (t ++ [.leave after]) →
      frames.length ≤ limits.maxCallDepth := by
    intro f args m t after frames room inside mem
    rcases List.mem_cons.1 mem with eq | mem
    · cases eq
      exact room
    · rcases List.mem_append.1 mem with mem | mem
      · exact inside mem
      · simp at mem
  induction h with
  | own | bodyRefused | argsRefused | callRefused => exact fun _ mem => absurd mem List.not_mem_nil
  | bodyStarts => exact fun _ mem => by simp at mem
  | callReturns _ room _ ih => exact fun frames => entered _ _ _ _ _ frames room (ih frames)
  | callFails _ room _ ih => exact fun frames => entered _ _ _ _ _ frames room (ih frames)
  | lineEnds _ ih => exact ih
  | lineFails _ ih => exact ih
  | goesOn _ _ ih ih' =>
    exact fun frames mem => (List.mem_append.1 mem).elim (ih frames) (ih' frames)
  | stops _ ih => exact ih

/-- The loop steps are counted, and no more start than may. -/
theorem Runs.iterations (h : Runs limits p m t r) :
    r.machine.iterations = m.iterations + t.count .body ∧
      (m.iterations ≤ limits.maxLoopIterations →
        r.machine.iterations ≤ limits.maxLoopIterations) := by
  have counted : ∀ (t : List Moment) (frames after : List CallFrame),
      (.enter frames :: (t ++ [.leave after])).count .body = t.count .body := by
    intro t frames after
    simp [List.count_append]
  induction h with
  | own step m =>
    have kept := (usesSame_own step m).iterations
    rw [kept]
    exact ⟨rfl, id⟩
  | bodyStarts room => exact ⟨rfl, fun _ => room⟩
  | bodyRefused | argsRefused | callRefused => exact ⟨rfl, id⟩
  | callReturns _ _ _ ih =>
    rw [counted]
    exact ih
  | callFails _ _ _ ih =>
    rw [counted]
    exact ih
  | lineEnds _ ih => exact ih
  | @lineFails _ line _ _ m' _ _ _ ih =>
    have kept := (usesSame_noteFailure m' line).iterations
    exact ⟨kept.trans ih.1, fun start => kept.trans_le (ih.2 start)⟩
  | @goesOn _ _ _ _ m m' t t' _ _ _ _ ih ih' =>
    have total : m'.iterations = m.iterations + t.count .body := ih.1
    refine ⟨?_, fun start => ih'.2 (ih.2 start)⟩
    rw [ih'.1, total, List.count_append, Nat.add_assoc]
  | stops _ ih => exact ih

/-! ## Runs and the interpreter -/

/-- A call whose arguments do not fit is refused, however many calls may become active. -/
theorem invokeAt_of_argsRefused {f : Closure} {args : List Value} {e : ScriptError}
    (arity : f.arity args = .error e) (depth : Nat) :
    invokeAt limits depth f args m = .error e m := by
  cases depth with
  | zero | succ =>
    unfold invokeAt
    rw [show checkArity _ _ _ = _ from arity]
    rfl

/-- A call is refused when no more may become active. -/
theorem invokeAt_zero (limits : Limits) (f : Closure) (args : List Value) (m : Machine) :
    ∃ e, invokeAt limits 0 f args m = .error e m := by
  cases arity : f.arity args with
  | error e => exact ⟨e, invokeAt_of_argsRefused arity 0⟩
  | ok =>
    rw [invokeAt, show checkArity _ _ _ = _ from arity]
    exact ⟨_, rfl⟩

/-- A call that may become active runs the body of its function. -/
theorem invokeAt_succ {f : Closure} {args : List Value} (arity : f.arity args = .ok ())
    (depth : Nat) :
    invokeAt limits (depth + 1) f args m =
      match Stmt.execBlock ⟨limits, invokeAt limits depth⟩ (m.scopes.size :: f.scopes) f.decl.body
        (m.enter f args) with
      | .ok flow m' => .ok flow.result (m'.comeBack m.line)
      | .error e m' => .error e (m'.comeBack m.line) := by
  rw [invokeAt, show checkArity _ _ _ = _ from arity]
  change EStateM.bind (Machine.inCall _ _) _ (Machine.mk _ _ _ _ _ _ _ _) = _
  unfold EStateM.bind Machine.inCall Machine.enter
  dsimp only
  generalize Stmt.execBlock _ _ _ _ = outcome
  cases outcome with
  | ok flow m' => cases flow <;> rfl
  | error e m' => rfl

/-- What runs in a state: as many more calls may become active as the budget leaves. -/
abbrev rulesIn (limits : Limits) (m : Machine) : Rules :=
  ⟨limits, invokeAt limits (limits.maxCallDepth - m.frames.length)⟩

/-- **A run comes to what the interpreter gives.** -/
theorem Runs.eq_perform (h : Runs limits p m t r) : p.perform (rulesIn limits m) m = r := by
  have inner : ∀ (f : Closure) (args : List Value) (m : Machine) (r : Outcome Flow),
      f.arity args = .ok () → m.frames.length < limits.maxCallDepth →
      (Stmt.planBlock limits (m.scopes.size :: f.scopes) f.decl.body).perform
        (rulesIn limits (m.enter f args)) (m.enter f args) = r →
      invokeAt limits (limits.maxCallDepth - m.frames.length) f args m =
        match r with
        | .ok flow m' => .ok flow.result (m'.comeBack m.line)
        | .error e m' => .error e (m'.comeBack m.line) := by
    rintro f args m r arity room rfl
    have less : limits.maxCallDepth - m.frames.length =
        limits.maxCallDepth - (m.enter f args).frames.length + 1 := by
      rw [show (m.enter f args).frames.length = m.frames.length + 1 from rfl]
      omega
    rw [less, invokeAt_succ arity, ← Stmt.perform_planBlock]
    rfl
  induction h with
  | own => rfl
  | bodyStarts room =>
    rw [perform_startBody, Machine.startStep, if_pos room]
  | bodyRefused full =>
    rw [perform_startBody, Machine.startStep, if_neg full.not_gt]
  | argsRefused arity => exact invokeAt_of_argsRefused arity _
  | @callRefused f args m arity full =>
    change invokeAt limits (limits.maxCallDepth - m.frames.length) f args m = _
    rw [Nat.sub_eq_zero_of_le full, invokeAt, show checkArity _ _ _ = _ from arity]
    rfl
  | callReturns arity room _ ih => exact inner _ _ _ _ arity room ih
  | callFails arity room _ ih => exact inner _ _ _ _ arity room ih
  | lineEnds _ ih =>
    rw [perform_atLine, Machine.atLine, ih]
  | lineFails _ ih =>
    rw [perform_atLine, Machine.atLine, ih]
  | @goesOn _ _ _ _ m m' _ _ _ _ before _ ih ih' =>
    -- the rest of the plan runs with as many calls left
    have same : rulesIn limits m = rulesIn limits m' := by
      rw [rulesIn, rulesIn, show m'.frames = m.frames from before.frames_eq]
    change EStateM.bind _ _ _ = _
    unfold EStateM.bind
    rw [ih, same]
    exact ih'
  | stops _ ih =>
    change EStateM.bind _ _ _ = _
    unfold EStateM.bind
    rw [ih]

/-- **Every run ends.** -/
theorem exists_runs (limits : Limits) (p : Plan α) (m : Machine) :
    ∃ t r, Runs limits p m t r := by
  generalize left : limits.maxCallDepth - m.frames.length = depth
  induction depth using Nat.strong_induction_on generalizing α p m with
  | _ depth calls =>
    induction p generalizing m with
    | own step => exact ⟨_, _, .own step m⟩
    | startBody =>
      by_cases room : m.iterations < limits.maxLoopIterations
      · exact ⟨_, _, .bodyStarts room⟩
      · exact ⟨_, _, .bodyRefused (not_lt.1 room)⟩
    | call f args =>
      cases arity : f.arity args with
      | error e => exact ⟨_, _, .argsRefused arity⟩
      | ok =>
        by_cases room : m.frames.length < limits.maxCallDepth
        · have less : limits.maxCallDepth - (m.enter f args).frames.length < depth := by
            rw [show (m.enter f args).frames.length = m.frames.length + 1 from rfl]
            omega
          obtain ⟨t, r, inside⟩ := calls _ less
            (Stmt.planBlock limits (m.scopes.size :: f.scopes) f.decl.body) (m.enter f args) rfl
          cases r with
          | ok flow m' => exact ⟨_, _, .callReturns arity room inside⟩
          | error e m' => exact ⟨_, _, .callFails arity room inside⟩
        · exact ⟨_, _, .callRefused arity (not_lt.1 room)⟩
    | atLine line steps ih =>
      obtain ⟨t, r, inside⟩ := ih { m with line := line } left
      cases r with
      | ok a m' => exact ⟨_, _, .lineEnds inside⟩
      | error e m' => exact ⟨_, _, .lineFails inside⟩
    | bind first next ih ih' =>
      obtain ⟨t, r, before⟩ := ih m left
      cases r with
      | ok a m' =>
        obtain ⟨t', r, after⟩ := ih' a m' (by rw [← left, show m'.frames = _ from before.frames_eq])
        exact ⟨_, _, .goesOn before after⟩
      | error e m' => exact ⟨_, _, .stops before⟩

/-! ## Programs -/

/-- A plan is carried out from a start, and ends; however it is carried out, it comes to what a step
gives and stays within the budgets. -/
structure EndsWithin (limits : Limits) (p : Plan Value) (start : Machine) (act : Run Value) :
    Prop where
  ends : ∃ t r, Runs limits p start t r
  gives : ∀ t r, Runs limits p start t r → act start = r
  /-- So many loop bodies start, over all loops and calls together. -/
  bodies : ∀ t r, Runs limits p start t r → t.count .body ≤ limits.maxLoopIterations
  /-- So many calls are active whenever one has become active. -/
  calls : ∀ t r, Runs limits p start t r →
    ∀ frames, .enter frames ∈ t → frames.length ≤ limits.maxCallDepth
  /-- After every call, the active calls are those before it. -/
  nested : ∀ t r, Runs limits p start t r → Moment.Nested start.frames t
  frames : ∀ t r, Runs limits p start t r → r.machine.frames = start.frames

theorem endsWithin_start (limits : Limits) (p : Plan Value) (world : World) :
    EndsWithin limits p { world := world } (p.perform (Rules.ofLimits limits)) where
  ends := exists_runs limits p _
  gives := fun _ _ run => run.eq_perform
  bodies := fun t r run => by
    obtain ⟨total, least⟩ := run.iterations
    have most := least (Nat.zero_le _)
    rwa [total, Nat.zero_add] at most
  calls := fun _ _ run => run.length_le
  nested := fun _ _ run => run.nested
  frames := fun _ _ run => run.frames_eq

end Plan

/-- **Every run ends within its budgets.** Whatever the program, the world and the budgets, the run
of a program and that of an event end. No more loop bodies start during the run than its budget
allows, over all loops and calls together, and no more calls are active at once; after every call,
by a value or by a failure, the active calls are those before it. -/
theorem Program.ends_within_budgets (limits : Limits) (p : Program) (world : World) :
    Plan.EndsWithin limits (p.plan limits) { world := world } (p.exec limits) ∧
    ∀ (name : String) (args : List Value),
      Plan.EndsWithin limits (p.eventPlan limits name args) { world := world }
        (p.execEvent limits name args) := by
  rw [← p.perform_plan limits]
  refine ⟨Plan.endsWithin_start limits _ world, fun name args => ?_⟩
  rw [← p.perform_eventPlan limits name args]
  exact Plan.endsWithin_start limits _ world

end SheetScript
