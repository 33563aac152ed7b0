import SheetScript.Proofs.Run.Deeds
import SheetScript.Proofs.Run.IndexAssignment

/-!
# Compound assignment

`x op= e` evaluates `e` first and combines the value that `x` has then; `x = x op e` combines the
value that `x` had before. An `e` that assigns `x` makes the difference, and nothing else does.

* `Stmt.exec_assign_variable` is an assignment to a variable, and `Expr.eval_binary_variable` an
  operation on the value of a variable.
* `Machine.Bound`: a name that is bound, and free to be assigned, stays so while an expression is
  evaluated (`Machine.Bound.eval`).
* `Stmt.exec_compound_eq_iff` says what both statements come to and when that is the same.
-/

namespace SheetScript

open Act

/-! ## Variables -/

theorem Scopes.isSome_lookup?_iff {scopes : Scopes} {chain : Chain} {name : String} :
    (scopes.lookup? chain name).isSome ↔ ∃ place ∈ chain, (scopes.binding? place name).isSome :=
  List.findSome?_isSome_iff

/-- A chain binds a name, and the name is that of a variable. -/
structure Machine.Bound (m : Machine) (chain : Chain) (name : String) : Prop where
  free : m.Free name
  isSome : (m.scopes.lookup? chain name).isSome

/-- A variable stays a variable while an expression is evaluated. -/
theorem Machine.Bound.eval {m : Machine} {chain : Chain} {name : String} (h : m.Bound chain name)
    (limits : Limits) (depth : Nat) (e : Expr) :
    ((e.eval ⟨limits, invokeAt limits depth⟩ chain).left m).Bound chain name := by
  obtain ⟨log, trail, fair⟩ := Expr.exists_trail limits depth chain e m
  obtain ⟨place, mem, bound⟩ := Scopes.isSome_lookup?_iff.1 h.isSome
  have globals := (trail.sameLent fair).globals
  exact ⟨⟨h.free.1, globals.symm ▸ h.free.2⟩,
    Scopes.isSome_lookup?_iff.2 ⟨place, mem, trail.isSome_binding? fair bound⟩⟩

section

variable {rules : Rules} {chain : Chain} {name : String} {m : Machine} {now : Value}

/-- A name that is bound and free is read as the variable. -/
theorem Expr.valueOf_variable (free : m.Free name)
    (found : m.scopes.lookup? chain name = some now) :
    Expr.valueOf chain name m = .ok now m := by
  rw [Expr.valueOf_eq, Machine.read, free.1, free.2, found]
  rfl

/-- To store into a variable combines the value that it has. -/
theorem Target.store_variable (op : Option Operator) (value : Value) (free : m.Free name)
    (found : m.scopes.lookup? chain name = some now) :
    store rules chain op value (.variable name) m =
      match combine op (.ok now) value with
      | .ok v => .ok v { m with scopes := m.scopes.assign chain name v }
      | .error e => .error e m := by
  have looked : Machine.lookup? chain name m = .ok (some now) m :=
    congrArg (EStateM.Result.ok · m) found
  have passes : checkFree name m = .ok () m := by
    rw [checkFree_eq, Machine.free_iff.1 free]
    rfl
  rw [store, bind_ok passes, bind_ok looked]
  cases combine op (.ok now) value <;> rfl

/-- An operation on the value of a variable takes that value before it evaluates the other
operand. -/
theorem Expr.eval_binary_variable (rules : Rules) (op : Operator) (e : Expr) (free : m.Free name)
    (found : m.scopes.lookup? chain name = some now) :
    (Expr.binary op (.variable name) e).eval rules chain m =
      (do Run.ofExcept (op.apply now (← e.eval rules chain))) m := by
  have value : (Expr.variable name).eval rules chain m = .ok now m := by
    rw [Expr.eval, valueOf_variable free found]
  rw [Expr.eval, bind_ok value]

end

/-! ## Assigning to a variable -/

/-- What a statement comes to that assigns a result to a variable. -/
def Machine.assigned (m : Machine) (chain : Chain) (name : String) (line : Nat) :
    Except ScriptError Value → Outcome Flow
  | .ok value =>
    .ok .next { m with scopes := m.scopes.assign chain name value, lastValue := value }
  | .error e => .error e (m.noteFailure line)

theorem Machine.assigned_inj {m : Machine} {chain : Chain} {name : String} {line : Nat}
    {result result' : Except ScriptError Value} :
    m.assigned chain name line result = m.assigned chain name line result' ↔
      result = result' := by
  refine ⟨fun same => ?_, fun same => same ▸ rfl⟩
  cases result with
  | ok value =>
    cases result' with
    | ok value' =>
      have same := (EStateM.Result.ok.inj same).2
      exact congrArg (fun m => Except.ok m.lastValue) same
    | error e' => nomatch same
  | error e =>
    cases result' with
    | ok value' => nomatch same
    | error e' => exact congrArg Except.error (EStateM.Result.error.inj same).1

namespace Stmt

section

variable {rules : Rules} {chain : Chain} {before m : Machine} (line : Nat) (e : Expr)

/-- An assignment fails where its right-hand side does. -/
theorem exec_assign_of_error (target : Target) (op : Option Operator) {err : ScriptError}
    (run : e.eval rules chain { before with line := line } = .error err m) :
    (assign line target op e).exec rules chain before = .error err (m.noteFailure line) := by
  rw [exec, Machine.atLine, bind_error run]

/-- An assignment to a variable, once the right-hand side has been evaluated. -/
theorem exec_assign_variable {name : String} {value now : Value} (op : Option Operator)
    (run : e.eval rules chain { before with line := line } = .ok value m) (free : m.Free name)
    (found : m.scopes.lookup? chain name = some now) :
    (assign line (.variable name) op e).exec rules chain before =
      m.assigned chain name line (Target.combine op (.ok now) value) := by
  have stored : Target.store rules chain op value (.variable name) m = _ :=
    Target.store_variable op value free found
  rw [exec, Machine.atLine, bind_ok run]
  cases result : Target.combine op (.ok now) value with
  | ok v =>
    rw [result] at stored
    rw [bind_ok stored]
    rfl
  | error err =>
    rw [result] at stored
    rw [bind_error stored]
    rfl

end

/-! ## The two statements -/

/-- `name op= e` -/
def compound (line : Nat) (name : String) (op : Operator) (e : Expr) : Stmt :=
  .assign line (.variable name) (some op) e

/-- `name = name op e` -/
def spelledOut (line : Nat) (name : String) (op : Operator) (e : Expr) : Stmt :=
  .assign line (.variable name) none (.binary op (.variable name) e)

section

variable (limits : Limits) (depth : Nat) {chain : Chain} {name : String} (line : Nat)
  (op : Operator) (e : Expr) {before m : Machine} {old value : Value} (free : before.Free name)
  (found : before.scopes.lookup? chain name = some old)
include free found

/-- Both statements fail alike where the right-hand side fails. -/
theorem exec_spelledOut_of_error {rules : Rules} {err : ScriptError}
    (run : e.eval rules chain { before with line := line } = .error err m) :
    (spelledOut line name op e).exec rules chain before = .error err (m.noteFailure line) := by
  have operation := Expr.eval_binary_variable (m := { before with line := line }) rules op e
    free found
  rw [bind_error run] at operation
  exact exec_assign_of_error line _ (.variable name) none operation

/-- What both statements come to where the right-hand side has a value. -/
theorem exec_compound_of_ok
    (run : e.eval ⟨limits, invokeAt limits depth⟩ chain { before with line := line } =
      .ok value m) :
    ∃ now, m.scopes.lookup? chain name = some now ∧
      (compound line name op e).exec ⟨limits, invokeAt limits depth⟩ chain before =
        m.assigned chain name line (op.apply now value) ∧
      (spelledOut line name op e).exec ⟨limits, invokeAt limits depth⟩ chain before =
        m.assigned chain name line (op.apply old value) := by
  have start : Machine.Bound { before with line := line } chain name :=
    ⟨free, Option.isSome_iff_exists.2 ⟨old, found⟩⟩
  have bound := start.eval limits depth e
  rw [left, run] at bound
  obtain ⟨now, found'⟩ := Option.isSome_iff_exists.1 bound.isSome
  refine ⟨now, found', exec_assign_variable line e (some op) run bound.free found', ?_⟩
  have operation := Expr.eval_binary_variable (m := { before with line := line })
    ⟨limits, invokeAt limits depth⟩ op e free found
  rw [bind_ok run] at operation
  cases result : op.apply old value with
  | ok v =>
    rw [result] at operation
    exact exec_assign_variable line _ none operation bound.free found'
  | error err =>
    rw [result] at operation
    exact exec_assign_of_error line _ (.variable name) none operation

/-- **What a compound assignment to a variable means.** It evaluates the right-hand side and then
combines the value that the variable has by then; an assignment of the operation combines the value
that it had before. The two come to the same value, state and error whenever the right-hand side
fails, and otherwise if and only if both values of the variable give the same result. -/
theorem exec_compound_eq_iff :
    (∀ err m, e.eval ⟨limits, invokeAt limits depth⟩ chain { before with line := line } =
        .error err m →
      (compound line name op e).exec ⟨limits, invokeAt limits depth⟩ chain before =
        .error err (m.noteFailure line) ∧
      (spelledOut line name op e).exec ⟨limits, invokeAt limits depth⟩ chain before =
        .error err (m.noteFailure line)) ∧
    ∀ value m, e.eval ⟨limits, invokeAt limits depth⟩ chain { before with line := line } =
        .ok value m →
      ∃ now, m.scopes.lookup? chain name = some now ∧
        (compound line name op e).exec ⟨limits, invokeAt limits depth⟩ chain before =
          m.assigned chain name line (op.apply now value) ∧
        (spelledOut line name op e).exec ⟨limits, invokeAt limits depth⟩ chain before =
          m.assigned chain name line (op.apply old value) ∧
        ((compound line name op e).exec ⟨limits, invokeAt limits depth⟩ chain before =
            (spelledOut line name op e).exec ⟨limits, invokeAt limits depth⟩ chain before ↔
          op.apply now value = op.apply old value) := by
  refine ⟨fun err m run => ⟨exec_assign_of_error line e _ _ run, ?_⟩, fun value m run => ?_⟩
  · exact exec_spelledOut_of_error line op e free found run
  · obtain ⟨now, found', stores, stores'⟩ :=
      exec_compound_of_ok limits depth line op e free found run
    refine ⟨now, found', stores, stores', ?_⟩
    rw [stores, stores', Machine.assigned_inj]

end

end Stmt

/-- `x` holds a text, and `tail` leaves a trace and gives another text. -/
def holding : Machine where
  world := ⟨{}, {}⟩
  scopes := #[[
    ("tail", .function ⟨0, ⟨"tail", [], [
      .expression 2 (.call (.variable "log") [.string "asked"]),
      .leave 3 (some (.string "b"))], 1⟩, [0]⟩),
    ("x", .string "a")]]

/-- The call `tail()` -/
def tailCall : Expr := .call (.variable "tail") []

theorem holding_exec_compound :
    ∃ m', (Stmt.compound 4 "x" .add tailCall).exec (Rules.ofLimits {}) [0] holding =
        .ok .next m' ∧
      (Stmt.spelledOut 4 "x" .add tailCall).exec (Rules.ofLimits {}) [0] holding =
        .ok .next m' ∧
      m'.scopes.lookup? [0] "x" = some (.string "ab") ∧
      m'.world.context.effects.logs = #["asked"] := by
  have free : holding.Free "x" := ⟨rfl, rfl⟩
  have found : holding.scopes.lookup? [0] "x" = some (.string "a") := rfl
  obtain ⟨-, succeeds⟩ := Stmt.exec_compound_eq_iff {} 128 4 .add tailCall free found
  obtain ⟨now, found, stores, -, same⟩ := succeeds (.string "b")
    ((tailCall.eval (Rules.ofLimits {}) [0]).left { holding with line := 4 }) rfl
  obtain rfl : Value.string "a" = now := Option.some.inj found
  exact ⟨_, stores, (same.2 rfl).symm.trans stores, rfl, rfl⟩

/-- `x` is one, and `bump` assigns ten to it and gives one. -/
def bumping : Program where
  statements := [
    .assign 1 (.variable "x") none (.number 1),
    .function 2 "bump" [] [
      .assign 3 (.variable "x") none (.number 10),
      .leave 4 (some (.number 1))]]

/-- The call `bump()` -/
def bumpCall : Expr := .call (.variable "bump") []

/-- What a statement of the top level leaves a variable as. -/
def Stmt.leaves (stmt : Stmt) (start : Machine) (name : String) : Option String :=
  match stmt.exec (Rules.ofLimits {}) [0] start with
  | .ok .next m => (m.scopes.lookup? [0] name).map Value.display
  | _ => none

theorem Stmt.exec_of_leaves {stmt : Stmt} {start : Machine} {name text : String}
    (h : stmt.leaves start name = some text) :
    ∃ m, stmt.exec (Rules.ofLimits {}) [0] start = .ok .next m ∧
      (m.scopes.lookup? [0] name).map Value.display = some text := by
  unfold leaves at h
  split at h
  next m run => exact ⟨m, run, h⟩
  next => nomatch h

/-- **A right-hand side that assigns the variable.** `x += bump()` adds to ten, `x = x + bump()` to
one. -/
theorem exists_compound_ne_spelledOut :
    ∃ start m m', start = (bumping.exec {}).left { world := ⟨{}, {}⟩ } ∧
      start.Free "x" ∧ (start.scopes.lookup? [0] "x").map Value.display = some "1" ∧
      (Stmt.compound 5 "x" .add bumpCall).exec (Rules.ofLimits {}) [0] start = .ok .next m ∧
      (Stmt.spelledOut 5 "x" .add bumpCall).exec (Rules.ofLimits {}) [0] start = .ok .next m' ∧
      (m.scopes.lookup? [0] "x").map Value.display = some "11" ∧
      (m'.scopes.lookup? [0] "x").map Value.display = some "2" := by
  have free : ((bumping.exec {}).left { world := ⟨{}, {}⟩ }).Free "x" := ⟨rfl, rfl⟩
  have one : (((bumping.exec {}).left { world := ⟨{}, {}⟩ }).scopes.lookup? [0] "x").map
      Value.display = some "1" := by decide
  have eleven : (Stmt.compound 5 "x" .add bumpCall).leaves
      ((bumping.exec {}).left { world := ⟨{}, {}⟩ }) "x" = some "11" := by decide
  have two : (Stmt.spelledOut 5 "x" .add bumpCall).leaves
      ((bumping.exec {}).left { world := ⟨{}, {}⟩ }) "x" = some "2" := by decide
  obtain ⟨m, compound, shows⟩ := Stmt.exec_of_leaves eleven
  obtain ⟨m', spelledOut, shows'⟩ := Stmt.exec_of_leaves two
  exact ⟨_, m, m', rfl, free, one, compound, spelledOut, shows, shows'⟩

end SheetScript
