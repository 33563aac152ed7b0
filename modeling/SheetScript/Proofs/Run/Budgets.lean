import Mathlib
import SheetScript.Proofs.Run.Simulation

/-!
# Raising the budgets

A run looks at its budgets in two places only: where a call becomes active and where a loop step
starts. A run that is not stopped there does the same with any larger budgets.

* `Limits.Within` compares budgets, and `RunResult.WithinBudgets` says that no budget ended a run.
* `Run.Keeps` compares a step under some budgets with the step under larger ones. A budget that is
  used up ends the whole run, since nothing catches a failure; so this comparison is a `RunLogic`
  (`Limits.Within.logic`).
* `Program.run_eq_of_within` is the statement about runs and events.
-/

namespace SheetScript

/-- A budget of the run is used up. -/
def ScriptError.isBudget : ScriptError → Bool
  | stackOverflow _ | iterationLimit _ => true
  | _ => false

/-- The other budgets allow at least as much, and log lines go to the same places. -/
structure Limits.Within (limits limits' : Limits) : Prop where
  calls : limits.maxCallDepth ≤ limits'.maxCallDepth
  loops : limits.maxLoopIterations ≤ limits'.maxLoopIterations
  console : limits.consoleLog = limits'.consoleLog

/-- The run was not ended by a budget. -/
def RunResult.WithinBudgets (r : RunResult) : Prop :=
  ∀ f ∈ r.failure, f.error.isBudget = false

namespace Run

variable {α β : Type} {G : α → Prop} {H : β → Prop}

/-- What a step comes to with some budgets, beside what it comes to with larger ones. -/
inductive Kept (G : α → Prop) :
    EStateM.Result ScriptError Machine α → EStateM.Result ScriptError Machine α → Prop
  /-- A budget is used up, and the larger ones may go on. -/
  | exhausted {e : ScriptError} {m : Machine} {r : EStateM.Result ScriptError Machine α}
      (h : e.isBudget) : Kept G (.error e m) r
  | ok {a : α} {m : Machine} (g : G a) : Kept G (.ok a m) (.ok a m)
  | error {e : ScriptError} {m : Machine} : Kept G (.error e m) (.error e m)

/-- From every state, the second step does what the first one does, unless a budget ends that one.
What they give has a property. -/
def Keeps (G : α → Prop) (act act' : Run α) : Prop := ∀ m, Kept G (act m) (act' m)

theorem keeps_refl {act : Run α} (h : ∀ a, G a) : Keeps G act act := fun m => by
  cases act m with
  | ok a m => exact .ok (h a)
  | error e m => exact .error

theorem keeps_pure {a : α} (h : G a) : Keeps G (pure a) (pure a) := fun _ => .ok h

theorem Keeps.bind {act act' : Run α} {f f' : α → Run β} (h : Keeps G act act')
    (hf : ∀ a, G a → Keeps H (f a) (f' a)) : Keeps H (act >>= f) (act' >>= f') := by
  intro m
  change Kept H (EStateM.bind act f m) (EStateM.bind act' f' m)
  unfold EStateM.bind
  have first := h m
  generalize act m = r, act' m = r' at first
  cases first with
  | exhausted budget => exact .exhausted budget
  | ok g => exact hf _ g _
  | error => exact .error

theorem Keeps.atLine {act act' : Run α} (line : Nat) (h : Keeps G act act') :
    Keeps G (Machine.atLine line act) (Machine.atLine line act') := by
  intro m
  unfold Machine.atLine
  have inside := h { m with line := line }
  generalize act { m with line := line } = r, act' { m with line := line } = r' at inside
  cases inside with
  | exhausted budget => exact .exhausted budget
  | ok g => exact .ok g
  | error => exact .error

theorem Keeps.inCall {act act' : Run α} (name : String) (h : Keeps G act act') :
    Keeps G (Machine.inCall name act) (Machine.inCall name act') := by
  intro m
  unfold Machine.inCall
  dsimp only
  have inside := h { m with frames := ⟨name, m.line⟩ :: m.frames }
  generalize act { m with frames := ⟨name, m.line⟩ :: m.frames } = r,
    act' { m with frames := ⟨name, m.line⟩ :: m.frames } = r' at inside
  cases inside with
  | exhausted budget => exact .exhausted budget
  | ok g => exact .ok g
  | error => exact .error

end Run

namespace Limits.Within

open Run

variable {limits limits' : Limits}

/-- A loop step starts as well with a larger budget. -/
theorem keeps_startStep (h : limits.Within limits') :
    Keeps (fun _ => True) (Machine.startStep limits) (Machine.startStep limits') := by
  intro m
  unfold Machine.startStep
  by_cases room : m.iterations < limits.maxLoopIterations
  · rw [if_pos room, if_pos (room.trans_le h.loops)]
    exact .ok trivial
  · rw [if_neg room]
    exact .exhausted rfl

/-- The comparison of runs under budgets with runs under larger ones. -/
def logic (h : limits.Within limits') : RunLogic limits limits' where
  kind := fun _ => True
  Matches := Keeps
  give := keeps_pure
  fail := fun _ _ => .error
  bind := Keeps.bind
  atLine := Keeps.atLine
  inCall := Keeps.inCall
  lookup? := fun _ _ => keeps_refl fun _ v _ => v.holdsOnly_any
  assign := fun _ _ _ _ => keeps_refl fun _ => trivial
  newScope := fun _ => keeps_refl fun _ => trivial
  declare := fun _ _ => keeps_refl fun _ => trivial
  startStep := h.keeps_startStep
  keepValue := fun _ => keeps_refl fun _ => trivial
  lastValue := keeps_refl Value.holdsOnly_any
  setLine := fun _ => keeps_refl fun _ => trivial
  valueOf := fun _ _ => keeps_refl Value.holdsOnly_any
  checkFree := fun _ => keeps_refl fun _ => trivial
  builtin := fun _ _ _ => h.console ▸ keeps_refl Value.holdsOnly_any
  native := fun _ _ _ _ _ _ => keeps_refl Value.holdsOnly_any
  method := fun _ _ _ _ => keeps_refl Value.holdsOnly_any
  property := fun _ _ => keeps_refl Value.holdsOnly_any

/-- Calls do the same when at least as many more may become active. -/
theorem calls_logic (h : limits.Within limits') {depth depth' : Nat} (le : depth ≤ depth') :
    h.logic.Calls (invokeAt limits depth) (invokeAt limits' depth') := by
  induction depth generalizing depth' with
  | zero =>
    intro f args _ m
    -- the arguments are counted before the calls, on either side
    cases arity : checkArity f.decl.name args f.decl.params.length with
    | error e =>
      have refused : ∀ limits depth, invokeAt limits depth f args m = .error e m :=
        fun limits depth => by cases depth <;> (unfold invokeAt; rw [arity]; rfl)
      rw [refused, refused]
      exact .error
    | ok =>
      have stopped :
          invokeAt limits 0 f args m = .error (.stackOverflow limits.maxCallDepth) m := by
        unfold invokeAt
        rw [arity]
        rfl
      rw [stopped]
      exact .exhausted rfl
  | succ depth ih =>
    obtain ⟨depth', rfl⟩ := Nat.exists_eq_succ_of_ne_zero (show depth' ≠ 0 by omega)
    exact h.logic.calls_succ (ih (by omega))

end Limits.Within

theorem Machine.failureOf_error (m : Machine) (e : ScriptError) : (m.failureOf e).error = e := by
  unfold failureOf
  split <;> rfl

/-- A step that larger budgets keep comes to the same, started in a world, unless a budget ends
it. -/
theorem Run.Keeps.start_eq {act act' : Run Value} {G : Value → Prop} (h : Keeps G act act')
    (w : World) (within : (Run.start act w).1.WithinBudgets) :
    Run.start act' w = Run.start act w := by
  unfold Run.start at *
  have run := h { world := w }
  generalize act { world := w } = r, act' { world := w } = r' at *
  cases run with
  | @exhausted e m _ budget =>
    have spared := within (m.failureOf e) rfl
    rw [Machine.failureOf_error, budget] at spared
    cases spared
  | ok => rfl
  | error => rfl

/-- **Raising the budgets never changes a run that did not hit them.** If a run of a program, or of
an event, succeeds or fails for another reason than a budget, then it gives the same result and
leaves the same world, subscriptions included, under all budgets that allow as much. -/
theorem Program.run_eq_of_within {limits limits' : Limits} (within : limits.Within limits')
    (p : Program) (w : World) :
    ((p.run limits w).1.WithinBudgets → p.run limits' w = p.run limits w) ∧
    ∀ (name : String) (args : List Value), (p.runEvent limits name args w).1.WithinBudgets →
      p.runEvent limits' name args w = p.runEvent limits name args w := by
  have calls := within.calls_logic within.calls
  refine ⟨(within.logic.program calls p).start_eq w, fun name args => ?_⟩
  have fit : within.logic.AllFit args := fun v _ => v.holdsOnly_any
  exact (within.logic.event calls p name fit).start_eq w

/-- A program that goes around a loop twice, calling in each step a function that calls another. -/
def callingInLoop : Program :=
  ⟨[.function 1 "inner" ["x"] [.leave 1 (some (.unary .not (.variable "x")))],
    .function 2 "outer" ["x"] [.leave 2 (some (.call (.variable "inner") [.variable "x"]))],
    .loop 3 "i" (.array [.bool true, .null]) [.expression 4 (.call (.variable "outer") [.variable "i"])]]⟩

/-- With two calls and two loop steps allowed it ends with a value, and so it does with more. -/
theorem callingInLoop_run_eq : Limits.Within ⟨2, 2, true⟩ ⟨128, 1000000, true⟩ ∧
    (callingInLoop.run ⟨2, 2, true⟩ ⟨{}, {}⟩).1.WithinBudgets ∧
    (callingInLoop.run ⟨2, 2, true⟩ ⟨{}, {}⟩).1.value = .bool true ∧
    callingInLoop.run ⟨128, 1000000, true⟩ ⟨{}, {}⟩ =
      callingInLoop.run ⟨2, 2, true⟩ ⟨{}, {}⟩ :=
  have within : Limits.Within ⟨2, 2, true⟩ ⟨128, 1000000, true⟩ := ⟨by decide, by decide, rfl⟩
  have done : (callingInLoop.run ⟨2, 2, true⟩ ⟨{}, {}⟩).1.failure = none := by decide +kernel
  have spared : (callingInLoop.run ⟨2, 2, true⟩ ⟨{}, {}⟩).1.WithinBudgets := fun f failed =>
    nomatch done.symm.trans failed
  ⟨within, spared, by cbv, (Program.run_eq_of_within within callingInLoop ⟨{}, {}⟩).1 spared⟩

end SheetScript
