import SheetScript.Proofs.Run.Regime

/-!
# How a run binds names

A piece of a program sees a chain of scopes. All that a step of its own does to the scopes is to
assign a name or to declare functions in that chain, and no step touches what the host lends. If the
piece binds only names of a kind, and so do the functions in the values that it works with, then its
steps bind only such names, and the functions in the values that it gives bind only such names.

* `OwnStep.Meets` says so of a step. `Plan.Meets` says so of the steps of a plan, and that the
  functions that it calls bind only such names.
* `Regime.naming` is the regime that asks for this. `Plan.Meets.of_obeys` and `Plan.Meets.obeys`: a
  plan obeys it just if it meets what is asked.
* `Expr.meets_plan` and `Stmt.meets_plan`: so do the plans of the pieces of a program.
-/

namespace SheetScript

open Act

/-! ## What the values are like -/

/-- The functions in the variables of a run, and in what the host lends, bind only names of a
kind. -/
structure Machine.BindsOnly (binds : String → Prop) (m : Machine) : Prop where
  scopes : m.scopes.All (Value.BindsOnly binds)
  lends : m.world.context.LendsOnly (Value.BindsOnly binds)

/-- The functions in the values of a run bind only names of a kind. The pieces of the program see a
given chain, or one whose innermost scope there is. -/
def Regime.naming (binds : String → Prop) (outermost : Chain) : Regime Nat where
  binds := binds
  fits _ := Value.BindsOnly binds
  sees scopes chain := chain = outermost ∨ chain.head?.getD 0 < scopes
  size scopes := scopes
  enter scopes _ := scopes + 1
  hereditary _ := Value.hereditary_bindsOnly binds
  builtin _ _ := trivial
  object _ _ := trivial
  declared _ only _ := only
  bindsOnly only := only
  fits_of_le _ only := only
  sees_of_le le sees := sees.imp_right fun inside => inside.trans_le le
  le_enter scopes _ := Nat.le_succ scopes
  size_enter _ _ := rfl
  sees_enter {scopes _} _ := .inr (Nat.lt_succ_self scopes)

variable {binds : String → Prop} {outermost chain : Chain} {n : Nat} {α : Type} {G : α → Prop}

/-! ## Steps of their own -/

namespace OwnStep

/-- All that a step can do to the scopes is to assign a name, or to declare functions, in a chain.
What it binds are names and values of a kind. -/
inductive Scoped (binds : String → Prop) (chain : Chain) : {α : Type} → OwnStep α → Prop
  | still {α : Type} {step : OwnStep α} (same : ∀ m, (step.act.left m).scopes = m.scopes) :
      Scoped binds chain step
  | assign {name : String} {v : Value} (name_binds : binds name) (fits : v.BindsOnly binds) :
      Scoped binds chain (.assign chain name v)
  | declare {functions : List Function}
      (bind : ∀ f ∈ functions, binds f.name ∧ f.BindsOnly binds) :
      Scoped binds chain (.declare chain functions)

/-- What is asked of a step in a piece of a program that sees a chain. It changes nothing that the
host lends, and what it gives has a property. -/
structure Meets (binds : String → Prop) (chain : Chain) (step : OwnStep α) (G : α → Prop) :
    Prop where
  scopes : step.Scoped binds chain
  lent : ∀ m : Machine, m.world.SameLent (step.act.left m).world
  gives : ∀ m : Machine, m.BindsOnly binds → Gives step.act m G

theorem Scoped.of_regime {step : OwnStep α}
    (h : (Regime.naming binds outermost).Scoped n chain step) : step.Scoped binds chain := by
  cases h with
  | still same => exact .still same
  | assign name_binds fits => exact .assign name_binds fits
  | declare bind => exact .declare bind

theorem meets_of_admits {step : OwnStep α}
    (h : (Regime.naming binds outermost).Admits n chain step G) : step.Meets binds chain G :=
  ⟨.of_regime h.scopes, h.lent, fun m start => h.gives m ⟨start.scopes, fun _ => start.lends⟩⟩

theorem Meets.admits {step : OwnStep α} (h : step.Meets binds chain G) :
    (Regime.naming binds outermost).Admits n chain step G := by
  refine ⟨?_, h.lent, fun m start => h.gives m ⟨start.scopes, start.lends n⟩⟩
  cases h.scopes with
  | still same => exact .still same
  | assign name_binds fits => exact .assign name_binds fits
  | declare bind => exact .declare bind

end OwnStep

/-! ## Plans -/

namespace Plan

variable {G' : α → Prop}

/-- What is asked of each step of a plan; what the plan gives has a property. The functions that it
calls, and their arguments, bind only names of a kind. -/
def Meets (binds : String → Prop) (chain : Chain) {α : Type} : Plan α → (α → Prop) → Prop
  | own step, G => step.Meets binds chain G
  | startBody, G => G ()
  | call f args, G => f.decl.BindsOnly binds ∧ (∀ v ∈ args, v.BindsOnly binds) ∧
      ∀ v : Value, v.BindsOnly binds → G v
  | atLine _ steps, G => steps.Meets binds chain G
  | bind first next, G => first.Meets binds chain fun a => (next a).Meets binds chain G

theorem Meets.mono {p : Plan α} (h : p.Meets binds chain G) (weaker : ∀ a, G a → G' a) :
    p.Meets binds chain G' := by
  induction p with
  | own step => exact ⟨h.scopes, h.lent, fun m start a m' run => weaker a (h.gives m start a m' run)⟩
  | startBody => exact weaker () h
  | call f args => exact ⟨h.1, h.2.1, fun v fits => weaker v (h.2.2 v fits)⟩
  | atLine line steps ih => exact ih h weaker
  | bind first next ih ih' => exact ih h fun a h => ih' a h weaker

/-- **A plan that obeys the regime of names meets what is asked.** -/
theorem Meets.of_obeys {p : Plan α} {H : Nat → α → Prop}
    (h : Obeys (Regime.naming binds outermost) chain n p H) (gives : ∀ k a, H k a → G a) :
    p.Meets binds chain G := by
  induction p generalizing n with
  | own step => exact OwnStep.meets_of_admits (Regime.Admits.mono h (gives n))
  | startBody => exact gives n () h
  | call f args => exact ⟨h.1, h.2.1, fun v only => gives n v (h.2.2 n le_rfl v only)⟩
  | atLine line steps ih => exact ih h gives
  | bind first next ih ih' => exact ih h fun _ a h => ih' a h gives

/-- **A plan that meets what is asked obeys the regime of names.** -/
theorem Meets.obeys {p : Plan α} (h : p.Meets binds chain G) :
    Obeys (Regime.naming binds outermost) chain n p fun _ => G := by
  induction p generalizing n with
  | own step => exact OwnStep.Meets.admits h
  | startBody => exact h
  | call f args => exact ⟨h.1, h.2.1, fun _ _ => h.2.2⟩
  | atLine line steps ih => exact ih h
  | bind first next ih ih' => exact (ih h).mono fun _ _ a h => ih' a h

theorem meets_pure {a : α} (h : G a) : (pure a : Plan α).Meets binds chain G := by
  have obeys : Obeys (Regime.naming binds chain) chain 0 (pure a) fun _ => G := obeys_pure h
  exact .of_obeys obeys fun _ _ => id

end Plan

/-! ## Programs -/

/-- The value with which a call ends binds only names of a kind. -/
def Flow.BindsOnly (binds : String → Prop) : Flow → Prop
  | .next => True
  | .leave v => v.BindsOnly binds

theorem Flow.bindsOnly_of_fits {flow : Flow} (h : (Regime.naming binds outermost).FlowFits n flow) :
    flow.BindsOnly binds := by
  cases flow with
  | next => trivial
  | leave v => exact h

variable (limits : Limits) (chain : Chain)

theorem Expr.meets_plan (e : Expr) :
    (e.plan limits chain).Meets binds chain (Value.BindsOnly binds) :=
  .of_obeys (obeys_plan (Regime.naming binds chain) limits chain e 0) fun _ _ only => only

namespace Stmt

theorem meets_plan {stmt : Stmt} (only : stmt.BindsOnly binds) :
    (stmt.plan limits chain).Meets binds chain (Flow.BindsOnly binds) :=
  .of_obeys (obeys_plan (Regime.naming binds chain) limits chain stmt 0 only) fun _ _ =>
    Flow.bindsOnly_of_fits

end Stmt

namespace Program

variable {p : Program} (only : Stmt.BlockBindsOnly binds p.statements)
include only

theorem meets_plan : (p.plan limits).Meets binds topLevel fun _ => True :=
  .of_obeys (obeys_plan (Regime.naming binds topLevel) limits only 0) fun _ _ => id

theorem meets_eventPlan (name : String) {args : List Value}
    (fit : ∀ v ∈ args, v.BindsOnly binds) :
    (p.eventPlan limits name args).Meets binds topLevel fun _ => True :=
  .of_obeys (obeys_eventPlan (Regime.naming binds topLevel) limits only name (i := 0) fit) fun _ _ => id

end Program

end SheetScript
