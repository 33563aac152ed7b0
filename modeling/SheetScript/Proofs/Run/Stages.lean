import SheetScript.Proofs.Run.Regime

/-!
# The stages of a run

A run under a regime comes to another stage each time that it enters a function. What it works with
at a stage is as the regime says for that stage.

* `Regime.stage` is the stage after some deeds.
* `Regime.Allows` says of a deed that it keeps to the regime, and `Regime.AllowsAll` of several,
  each at its own stage; then the state after them is as the regime says (`AllowsAll.at_stage`).
* `Plan.staged_log`, `Plan.staged_logCall`: the deeds of a run are of that kind.
-/

namespace SheetScript

namespace Regime

variable {ι : Type} [Preorder ι] (R : Regime ι) {i : ι} {d : Deed} {log more : List Deed}
  {m m' : Machine}

/-! ## Stages -/

/-- The stage after a deed. -/
def next (i : ι) : Deed → ι
  | .own _ _ => i
  | .enter f _ _ => R.enter i f

/-- The stage after some deeds. -/
def stage (i : ι) (log : List Deed) : ι := log.foldl R.next i

theorem stage_append (i : ι) (log more : List Deed) :
    R.stage i (log ++ more) = R.stage (R.stage i log) more := List.foldl_append

theorem le_stage (i : ι) (log : List Deed) : i ≤ R.stage i log := by
  induction log generalizing i with
  | nil => exact le_rfl
  | cons d log ih =>
    refine le_trans ?_ (ih (R.next i d))
    cases d with
    | own step m => exact le_rfl
    | enter f args m => exact R.le_enter i f

/-- A state at a stage is as the regime says, and has as many scopes as there are at that stage. -/
structure At (i : ι) (m : Machine) : Prop extends R.Holds i m where
  size : m.scopes.size = R.size i

variable {R} in
theorem At.of_same (h : R.At i m) (same : m.SameStore m') : R.At i m' :=
  ⟨h.toHolds.of_same same.scopes (same.world ▸ .refl _), same.scopes ▸ h.size⟩

/-! ## Deeds -/

/-- What is asked of a deed at a stage. -/
inductive Allows (i : ι) : Deed → Prop
  | own {α : Type} {step : OwnStep α} {m : Machine} {G : α → Prop} {chain : Chain}
      (admits : R.Admits i chain step G) (sees : R.sees i chain) : Allows i (.own step m)
  | enter {f : Closure} {args : List Value} {m : Machine} (fits : R.fits i (.function f))
      (fit : R.AllFit i args) : Allows i (.enter f args m)

/-- What is asked of deeds, each at its stage. -/
def AllowsAll (i : ι) : List Deed → Prop
  | [] => True
  | d :: rest => R.Allows i d ∧ AllowsAll (R.next i d) rest

variable {R}

theorem allowsAll_nil : R.AllowsAll i [] := trivial

theorem allowsAll_append :
    R.AllowsAll i (log ++ more) ↔ R.AllowsAll i log ∧ R.AllowsAll (R.stage i log) more := by
  induction log generalizing i with
  | nil => exact ⟨fun h => ⟨allowsAll_nil, h⟩, And.right⟩
  | cons d log ih =>
    rw [List.cons_append, AllowsAll, AllowsAll, ih, and_assoc]
    rfl

/-- After a deed, the state is at the next stage. -/
theorem Allows.at_next (h : R.Allows i d) (start : R.At i d.before) :
    R.At (R.next i d) d.after := by
  cases h with
  | @own _ step m _ chain admits sees =>
    exact ⟨admits.holds sees start.toHolds, (admits.scopes.size_eq m).trans start.size⟩
  | @enter f args m fits fit =>
    have le := R.le_enter i f
    refine ⟨⟨Scopes.All.push (fun place entry mem => ?_) ?_, start.lends⟩, ?_⟩
    · exact R.fits_of_le le (start.scopes place entry mem)
    · refine Value.Hereditary.ofList fun pair mem => ?_
      exact R.fits_of_le le (fit _ (List.of_mem_zip mem).2)
    · change (m.scopes.push _).size = R.size (R.enter i f)
      rw [Array.size_push, R.size_enter]
      exact congrArg (· + 1) start.size

/-- **A run under a regime comes to a state that is as the regime says.** -/
theorem AllowsAll.at_stage (h : R.AllowsAll i log) (trail : Deed.Trail m log m')
    (start : R.At i m) : R.At (R.stage i log) m' := by
  induction trail generalizing i with
  | nil same => exact start.of_same same
  | cons same _ ih => exact ih h.2 (h.1.at_next (start.of_same same))

/-- The chain of a function that has been entered is one that pieces of the program see. -/
theorem AllowsAll.sees_of_mem (h : R.AllowsAll i log) (trail : Deed.Trail m log m')
    (start : R.At i m) {f : Closure} {args : List Value} {t : Machine}
    (mem : .enter f args t ∈ log) : R.sees (R.stage i log) (t.scopes.size :: f.scopes) := by
  obtain ⟨front, back, rfl⟩ := List.append_of_mem mem
  obtain ⟨earlier, here, -⟩ := allowsAll_append.1 h
  have there : R.At (R.stage i front) t := earlier.at_stage trail.split.1 start
  cases here with
  | enter fits fit =>
    have sees := R.sees_enter fits
    rw [← there.size] at sees
    rw [stage_append]
    exact R.sees_of_le (R.le_stage _ back) sees

end Regime

/-! ## Logs -/

namespace Plan

variable {ι : Type} [Preorder ι] {R : Regime ι} {i : ι} {chain : Chain} {α : Type}
  {G : ι → α → Prop}

/-- The deeds of a log keep to a regime, and what is given at its end has a property. -/
structure Staged (R : Regime ι) (i : ι) (G : ι → α → Prop) (logged : List Deed × Outcome α) :
    Prop where
  allows : R.AllowsAll i logged.1
  gives : ∀ a m', logged.2 = .ok a m' → G (R.stage i logged.1) a

theorem staged_error {log : List Deed} (allows : R.AllowsAll i log) (e : ScriptError)
    (m : Machine) : Staged R i G (log, .error e m) := ⟨allows, fun _ _ eq => nomatch eq⟩

theorem staged_ok {log : List Deed} (allows : R.AllowsAll i log) {a : α}
    (h : G (R.stage i log) a) (m : Machine) : Staged R i G (log, .ok a m) := by
  refine ⟨allows, ?_⟩
  rintro _ _ ⟨⟩
  exact h

/-- The logs of calls are trails, and keep to a regime if the functions called and their arguments
fit. -/
structure ObeyingCalls (R : Regime ι)
    (called : Closure → List Value → Machine → List Deed × Outcome Value) : Prop where
  trail : ∀ f args m, Deed.Trail m (called f args m).1 (called f args m).2.machine
  staged : ∀ (i : ι) (f : Closure) (args : List Value) (m : Machine), R.fits i (.function f) →
    R.AllFit i args → R.At i m → Staged R i R.fits (called f args m)

variable {called : Closure → List Value → Machine → List Deed × Outcome Value}

/-- **All deeds of a plan keep to a regime**, if those of the calls do. -/
theorem staged_log (limits : Limits) (calls : ObeyingCalls R called) {p : Plan α}
    (obeys : Obeys R chain i p G) (sees : R.sees i chain) {m : Machine} (start : R.At i m) :
    Staged R i G (p.log limits called m) := by
  induction p generalizing i m with
  | own step => exact ⟨⟨.own obeys sees, trivial⟩, obeys.gives m start.toHolds⟩
  | startBody =>
    rw [log, Machine.startStep]
    split
    · exact staged_ok Regime.allowsAll_nil obeys _
    · exact staged_error Regime.allowsAll_nil _ _
  | call f args =>
    have logged := calls.staged i f args m obeys.1 obeys.2.1 start
    exact ⟨logged.allows, fun v m' given =>
      obeys.2.2 _ (R.le_stage i _) v (logged.gives v m' given)⟩
  | atLine line steps ih =>
    have start : R.At i { m with line := line } := start.of_same ⟨rfl, rfl⟩
    have inside := ih obeys sees start
    rw [log]
    generalize steps.log limits called { m with line := line } = logged at inside ⊢
    obtain ⟨deeds, r⟩ := logged
    cases r with
    | ok a m' => exact staged_ok inside.allows (inside.gives a m' rfl) m'
    | error e m' => exact staged_error inside.allows e _
  | bind first next ih ih' =>
    have before := ih obeys sees start
    have trail := trail_log limits calls.trail first m
    rw [log]
    generalize first.log limits called m = logged at before trail ⊢
    obtain ⟨deeds, r⟩ := logged
    cases r with
    | error e m' => exact staged_error before.allows e m'
    | ok a m' =>
      have after := ih' a (before.gives a m' rfl) (R.sees_of_le (R.le_stage i deeds) sees)
        (before.allows.at_stage trail start)
      refine ⟨Regime.allowsAll_append.2 ⟨before.allows, after.allows⟩, fun b m'' given => ?_⟩
      have gives := after.gives b m'' given
      rwa [← R.stage_append] at gives

/-- In a call, the stage is the next one, and the chain has a new scope in front. -/
theorem staged_logCall (limits : Limits) (depth : Nat) :
    ObeyingCalls R (logCall limits depth) := by
  induction depth with
  | zero =>
    refine ⟨trail_logCall limits 0, fun i f args m _ _ _ => ?_⟩
    obtain ⟨e, refused⟩ := invokeAt_zero limits f args m
    rw [logCall, refused]
    exact staged_error Regime.allowsAll_nil e m
  | succ depth ih =>
    refine ⟨trail_logCall limits (depth + 1), fun i f args m fits fit start => ?_⟩
    have enters : R.Allows i (.enter f args m) := .enter fits fit
    have entered : R.At (R.enter i f) (m.enter f args) := enters.at_next start
    have sees : R.sees (R.enter i f) (m.scopes.size :: f.scopes) :=
      start.size ▸ R.sees_enter fits
    rw [logCall]
    cases f.arity args with
    | error e => exact staged_error Regime.allowsAll_nil e m
    | ok =>
      have inside := staged_log limits ih (Stmt.obeys_planBlock R limits
        (m.scopes.size :: f.scopes) (R.bindsOnly fits) (R.enter i f)) sees entered
      dsimp only
      generalize log limits (logCall limits depth) _ (m.enter f args) = logged at inside ⊢
      obtain ⟨deeds, r⟩ := logged
      have allows : R.AllowsAll i (.enter f args m :: deeds) := ⟨enters, inside.allows⟩
      cases r with
      | error e m' => exact staged_error allows e _
      | ok flow m' =>
        refine staged_ok allows ?_ _
        have leaves := inside.gives flow m' rfl
        cases flow with
        | next => exact (R.hereditary _).null
        | leave v => exact leaves

end Plan

end SheetScript
