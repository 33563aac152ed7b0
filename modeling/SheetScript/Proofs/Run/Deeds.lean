import SheetScript.Proofs.Run.Bindings
import SheetScript.Proofs.Run.Stages

/-!
# Which deeds of a run bind a name

A deed of a run binds a name if it assigns the name, declares a function of that name, or enters a
function that has a parameter of that name; each time in one scope.

* `Deed.Fair` says of a deed what `OwnStep.Meets` says of a step, and that the scope in which it
  binds names exists. `Plan.fair_logAt`: all deeds of a run are fair.
* `Deed.Binds` says which name a deed binds, and in which scope. `Deed.Fair.binding?_eq`: a fair
  deed that does not bind a name in a scope leaves it alone there.
  `Deed.Fair.binding?_eq_of_not`: it leaves names of another kind alone in all scopes.
* `Program.Logs.fair`: all deeds of a program are fair.
-/

namespace SheetScript

open Act

/-! ## Fair deeds -/

namespace Deed

variable {binds : String → Prop} {chain : Chain} {d : Deed} {m m' : Machine} {log : List Deed}

/-- A deed in a run of a piece of a program that sees a chain. A step binds names in that chain, or
in one whose innermost scope exists. -/
inductive Fair (binds : String → Prop) (chain : Chain) : Deed → Prop
  | own {α : Type} {step : OwnStep α} {m : Machine} {G : α → Prop} {other : Chain}
      (meets : step.Meets binds other G)
      (placed : other = chain ∨ other.head?.getD 0 < m.scopes.size) : Fair binds chain (.own step m)
  | enter {f : Closure} {args : List Value} {m : Machine}
      (fit : ∀ v ∈ args, v.BindsOnly binds) : Fair binds chain (.enter f args m)

namespace Fair

theorem lent (h : d.Fair binds chain) : d.before.world.SameLent d.after.world := by
  cases h with
  | own meets _ => exact meets.lent _
  | enter _ => exact .refl _

/-- No scope goes away. -/
theorem size_le (h : d.Fair binds chain) : d.before.scopes.size ≤ d.after.scopes.size := by
  cases h with
  | @own _ step m _ _ meets _ =>
    refine Nat.le_of_eq (Eq.symm ?_)
    cases meets.scopes with
    | still same => exact congrArg Array.size (same m)
    | assign => exact Scopes.size_assign ..
    | declare => exact (congrArg Array.size (m.scopes_declare _ _)).trans Scopes.size_declare
  | @enter f args m _ =>
    change m.scopes.size ≤ (m.scopes.push _).size
    rw [Array.size_push]
    exact Nat.le_add_right _ 1

end Fair

namespace Trail

variable (trail : Trail m log m') (fair : ∀ d ∈ log, d.Fair binds chain)
include trail fair

theorem sameLent : m.world.SameLent m'.world :=
  trail.induction (P := fun t => m.world.SameLent t.world)
    (fun same h => same.world ▸ h) (fun d mem h => h.trans (fair d mem).lent) (.refl _)

theorem size_le : m.scopes.size ≤ m'.scopes.size :=
  trail.induction (P := fun t => m.scopes.size ≤ t.scopes.size)
    (fun same h => same.scopes ▸ h) (fun d mem h => h.trans (fair d mem).size_le) le_rfl

theorem size_le_of_mem (mem : d ∈ log) : m.scopes.size ≤ d.before.scopes.size := by
  obtain ⟨front, back, rfl⟩ := List.append_of_mem mem
  exact trail.split.1.size_le fun d mem => fair d (List.mem_append_left _ mem)

theorem sameLent_of_mem (mem : d ∈ log) : m.world.SameLent d.before.world := by
  obtain ⟨front, back, rfl⟩ := List.append_of_mem mem
  exact trail.split.1.sameLent fun d mem => fair d (List.mem_append_left _ mem)

end Trail

end Deed

/-- Deeds that keep to the regime of names are fair. -/
theorem Regime.AllowsAll.fair {binds : String → Prop} {chain : Chain} {n : Nat} {m m' : Machine}
    {log : List Deed} (h : (naming binds chain).AllowsAll n log) (trail : Deed.Trail m log m')
    (start : (naming binds chain).At n m) : ∀ d ∈ log, d.Fair binds chain := by
  induction trail generalizing n with
  | nil => exact fun _ mem => absurd mem List.not_mem_nil
  | cons same _ ih =>
    have before := start.of_same same
    refine List.forall_mem_cons.2 ⟨?_, ih h.2 (h.1.at_next before)⟩
    cases h.1 with
    | own admits sees =>
      exact .own (OwnStep.meets_of_admits admits)
        (sees.imp_right fun inside => inside.trans_eq before.size.symm)
    | enter _ fit => exact .enter fit

/-- **All deeds of a plan are fair**, if it meets what is asked. -/
theorem Plan.fair_logAt {binds : String → Prop} {chain : Chain} {α : Type} {G : α → Prop}
    (limits : Limits) (depth : Nat) {p : Plan α} (meets : p.Meets binds chain G) {m : Machine}
    (start : m.BindsOnly binds) : ∀ d ∈ (p.logAt limits depth m).1, d.Fair binds chain := by
  have here : (Regime.naming binds chain).At m.scopes.size m :=
    ⟨⟨start.scopes, fun _ => start.lends⟩, rfl⟩
  have staged := staged_log limits (staged_logCall limits depth) meets.obeys (.inl rfl) here
  exact staged.allows.fair (p.trail_logAt limits depth m) here

/-! ## Binding a name -/

namespace Scopes

variable {scopes : Scopes} {place : Nat} {name : String}

theorem binding?_push_of_lt (bindings : Entries Value) (inside : place < scopes.size) :
    Scopes.binding? (scopes.push bindings) place name = scopes.binding? place name := by
  rw [binding?, binding?, Array.getD_eq_getD_getElem?, Array.getD_eq_getD_getElem?,
    Array.getElem?_push, if_neg inside.ne]

theorem binding?_push_self (scopes : Scopes) (bindings : Entries Value) (name : String) :
    Scopes.binding? (scopes.push bindings) scopes.size name = Entries.find? bindings name := by
  rw [binding?, Array.getD_eq_getD_getElem?, Array.getElem?_push_size, Option.getD_some]

theorem lookup?_of_head {outer : Chain} {value : Value}
    (found : scopes.binding? place name = some value) :
    scopes.lookup? (place :: outer) name = some value :=
  (List.findSome?_cons_of_isSome (by rw [found]; rfl)).trans found

theorem binding?_eq_none_of_le (outside : scopes.size ≤ place) :
    scopes.binding? place name = none := by
  rw [binding?, Array.getD_eq_getD_getElem?, Array.getElem?_eq_none outside]
  rfl

theorem isSome_binding?_define (other : Nat) (n : String) (value : Value)
    (bound : (scopes.binding? place name).isSome) :
    ((scopes.define other n value).binding? place name).isSome := by
  by_cases here : place = other ∧ name = n
  · obtain ⟨v, found⟩ := Option.isSome_iff_exists.1 bound
    rw [binding?_define (here.1 ▸ lt_size_of_binding? found), if_pos here]
    rfl
  · rwa [binding?_define_of_ne here]

theorem isSome_binding?_declare {entry : Nat} {chain : Chain} {functions : List Function}
    (bound : (scopes.binding? place name).isSome) :
    ((scopes.declare entry chain functions).binding? place name).isSome := by
  induction functions using List.reverseRecOn with
  | nil => exact bound
  | append_singleton functions f ih =>
    rw [declare_concat]
    exact isSome_binding?_define _ _ _ ih

end Scopes

namespace Deed

variable {binds : String → Prop} {chain : Chain} {d : Deed} {m m' : Machine} {log : List Deed}
  {place : Nat} {name : String}

/-- A deed binds a name in a scope. -/
inductive Binds (place : Nat) (name : String) : Deed → Prop
  | assign {chain : Chain} {v : Value} {m : Machine} (here : m.scopes.owner chain name = place) :
      Binds place name (.own (.assign chain name v) m)
  | declare {chain : Chain} {functions : List Function} {m : Machine} {f : Function}
      (mem : f ∈ functions) (same : f.name = name) (here : chain.head?.getD 0 = place) :
      Binds place name (.own (.declare chain functions) m)
  | enter {f : Closure} {args : List Value} {m : Machine} (mem : name ∈ f.decl.params)
      (here : m.scopes.size = place) : Binds place name (.enter f args m)

/-- **A deed that does not bind a name in a scope leaves it alone there.** -/
theorem Fair.binding?_eq (h : d.Fair binds chain) (free : ¬d.Binds place name) :
    d.after.scopes.binding? place name = d.before.scopes.binding? place name := by
  cases h with
  | @own _ step m _ other meets _ =>
    cases meets.scopes with
    | still same => exact congrArg (Scopes.binding? · place name) (same m)
    | @assign n v _ _ =>
      refine Scopes.binding?_define_of_ne fun ⟨here, same⟩ => free ?_
      subst same
      exact .assign here.symm
    | @declare functions _ =>
      change (Act.left (Machine.declare other functions) m).scopes.binding? place name = _
      rw [m.scopes_declare]
      exact Scopes.binding?_declare_of_ne fun here f mem same => free (.declare mem same here.symm)
  | @enter f args m _ =>
    change Scopes.binding? (m.scopes.push _) place name = m.scopes.binding? place name
    obtain inside | rfl | outside := lt_trichotomy place m.scopes.size
    · exact Scopes.binding?_push_of_lt _ inside
    · have unbound : ∀ pair ∈ f.decl.params.zip args, pair.1 ≠ name := fun pair mem same =>
        free (.enter (same ▸ (List.of_mem_zip mem).1) rfl)
      rw [Scopes.binding?_push_self, Scopes.binding?_eq_none_of_le le_rfl]
      exact @Entries.find?_ofList_append Value [] _ name unbound
    · rw [Scopes.binding?_eq_none_of_le outside.le, Scopes.binding?_eq_none_of_le]
      rw [Array.size_push]
      exact outside

/-- A name that deeds do not bind keeps its binding in every scope that there is. -/
theorem Fair.binding?_eq_of_not (h : d.Fair binds chain) (unnamed : ¬binds name)
    (inside : place < d.before.scopes.size) :
    d.after.scopes.binding? place name = d.before.scopes.binding? place name := by
  cases h with
  | @own _ step m _ other meets _ =>
    cases meets.scopes with
    | still same => exact congrArg (Scopes.binding? · place name) (same m)
    | assign name_binds _ =>
      exact Scopes.binding?_define_of_ne fun h => unnamed (h.2 ▸ name_binds)
    | @declare functions bind =>
      change (Act.left (Machine.declare other functions) m).scopes.binding? place name = _
      rw [m.scopes_declare]
      exact Scopes.binding?_declare_of_ne fun _ f mem same => unnamed (same ▸ (bind f mem).1)
  | enter _ => exact Scopes.binding?_push_of_lt _ inside

/-- What is bound stays bound. -/
theorem Fair.isSome_binding? (h : d.Fair binds chain)
    (bound : (d.before.scopes.binding? place name).isSome) :
    (d.after.scopes.binding? place name).isSome := by
  cases h with
  | @own _ step m _ other meets _ =>
    cases meets.scopes with
    | still same => exact (congrArg (Scopes.binding? · place name) (same m)) ▸ bound
    | assign _ _ => exact Scopes.isSome_binding?_define _ _ _ bound
    | declare _ =>
      change ((Act.left (Machine.declare other _) m).scopes.binding? place name).isSome
      rw [m.scopes_declare]
      exact Scopes.isSome_binding?_declare bound
  | @enter f args m _ =>
    obtain ⟨v, found⟩ := Option.isSome_iff_exists.1 bound
    exact (Scopes.binding?_push_of_lt _ (Scopes.lt_size_of_binding? found)).symm ▸ bound

namespace Trail

variable (trail : Trail m log m') (fair : ∀ d ∈ log, d.Fair binds chain)
include trail fair

/-- A name that no deed of a trail binds in a scope has the same binding there in the end. -/
theorem binding?_eq (free : ∀ d ∈ log, ¬d.Binds place name) :
    m'.scopes.binding? place name = m.scopes.binding? place name :=
  trail.induction (P := fun t => t.scopes.binding? place name = m.scopes.binding? place name)
    (fun same h => same.scopes ▸ h)
    (fun d mem h => ((fair d mem).binding?_eq (free d mem)).trans h) rfl

/-- A name of another kind than the deeds bind has the same binding in the end, in every scope that
there was. -/
theorem binding?_eq_of_not (unnamed : ¬binds name) (inside : place < m.scopes.size) :
    m'.scopes.binding? place name = m.scopes.binding? place name :=
  (trail.induction
    (P := fun t => place < t.scopes.size ∧
      t.scopes.binding? place name = m.scopes.binding? place name)
    (fun same h => same.scopes ▸ h)
    (fun d mem h => ⟨h.1.trans_le (fair d mem).size_le,
      ((fair d mem).binding?_eq_of_not unnamed h.1).trans h.2⟩) ⟨inside, rfl⟩).2

theorem isSome_binding? (bound : (m.scopes.binding? place name).isSome) :
    (m'.scopes.binding? place name).isSome :=
  trail.induction (P := fun t => (t.scopes.binding? place name).isSome)
    (fun same h => same.scopes ▸ h) (fun d mem h => (fair d mem).isSome_binding? h) bound

end Trail

end Deed

/-! ## Any program -/

theorem Machine.bindsOnly_of_forall {binds : String → Prop} (all : ∀ name, binds name)
    (m : Machine) : m.BindsOnly binds :=
  ⟨fun _ entry _ => entry.2.bindsOnly_of_forall all,
    .of_forall fun v => v.bindsOnly_of_forall all⟩

/-- What a plan does is a trail of fair deeds. -/
theorem Plan.exists_trail {binds : String → Prop} {chain : Chain} {α : Type} {G : α → Prop}
    (limits : Limits) (depth : Nat) {p : Plan α} (meets : p.Meets binds chain G) {m : Machine}
    (start : m.BindsOnly binds) :
    ∃ log, Deed.Trail m log ((p.perform ⟨limits, invokeAt limits depth⟩).left m) ∧
      ∀ d ∈ log, d.Fair binds chain := by
  refine ⟨_, ?_, p.fair_logAt limits depth meets start⟩
  rw [left_eq_machine, ← p.logAt_eq]
  exact p.trail_logAt limits depth m

/-- The evaluation of an expression is a trail of fair deeds. -/
theorem Expr.exists_trail (limits : Limits) (depth : Nat) (chain : Chain) (e : Expr)
    (m : Machine) :
    ∃ log, Deed.Trail m log ((e.eval ⟨limits, invokeAt limits depth⟩ chain).left m) ∧
      ∀ d ∈ log, d.Fair (fun _ => True) chain := by
  rw [← Expr.perform_plan ⟨limits, invokeAt limits depth⟩ chain e]
  exact Plan.exists_trail limits depth (e.meets_plan limits chain)
    (m.bindsOnly_of_forall fun _ => trivial)

namespace Program

variable {limits : Limits} {p : Program}

/-- All deeds of a program are fair. -/
theorem Logs.fair {world : World} {log : List Deed} {m : Machine}
    (h : p.Logs limits world log m) : ∀ d ∈ log, d.Fair (fun _ => True) topLevel := by
  have only : Stmt.BlockBindsOnly (fun _ => True) p.statements :=
    Stmt.blockBindsOnly_of_forall (fun _ => trivial) p.statements
  have start : Machine.BindsOnly (fun _ => True) { world := world } :=
    Machine.bindsOnly_of_forall (fun _ => trivial) _
  cases h with
  | run => exact Plan.fair_logAt _ _ (meets_plan limits only) start
  | event name args =>
    have fit : ∀ v ∈ args, v.BindsOnly fun _ => True := fun v _ =>
      v.bindsOnly_of_forall fun _ => trivial
    exact Plan.fair_logAt _ _ (meets_eventPlan limits only name fit) start

end Program

end SheetScript
