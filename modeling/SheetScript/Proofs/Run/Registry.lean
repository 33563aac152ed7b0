import SheetScript.Proofs.Run.Change

/-!
# Runs and the registry

A run in the context of a script writes to the registry of subscriptions and never reads it. Two
runs of one program that start with different registries do the same, and subscribe to the same
names.

* `World.Twin` relates worlds that differ in their registries only, by a run of a script.
* `Program.run_twin` and `Program.runEvent_twin` are the statements about a run.
-/

namespace SheetScript

open Relation Act

/-- Two worlds are alike but for the registries they started with, to which a script has subscribed
to the same names. -/
structure World.Twin (script : String) (s s' : Subscriptions) (w w' : World) : Prop where
  context : w.context = w'.context
  own : w.context.scriptId = some script
  registered : ∃ names, w.subscriptions = s.registerFor script names ∧
    w'.subscriptions = s'.registerFor script names

variable {script : String} {s s' : Subscriptions}

theorem Context.scriptId_of_changes {c c' : Context} (h : ReflTransGen Context.Change c c') :
    c'.scriptId = c.scriptId := by
  induction h with
  | refl => rfl
  | tail _ change ih => exact change.scriptId_eq.trans ih

namespace World.Twin

variable {w w' : World}

theorem withContext (h : Twin script s s' w w') {c : Context}
    (own : c.scriptId = w.context.scriptId) :
    Twin script s s' { w with context := c } { w' with context := c } :=
  ⟨rfl, own.trans h.own, h.registered⟩

theorem onContext {α : Type} (h : Twin script s s' w w') {act : Act Context α}
    (goes : ReflTransGen Context.Change w.context (act.left w.context)) :
    Alike (Twin script s s') (World.onContext act w) (World.onContext act w') := by
  have own := Context.scriptId_of_changes goes
  unfold World.onContext Act.on
  dsimp only
  rw [← h.context]
  unfold left at own
  cases run : act w.context with
  | ok a c =>
    rw [run] at own
    exact .ok (h.withContext own)
  | error e c =>
    rw [run] at own
    exact .error (h.withContext own)

theorem subscribeTo (h : Twin script s s' w w') (names : List String) :
    Alike (Twin script s s') (Builtin.subscribeTo names w) (Builtin.subscribeTo names w') := by
  obtain ⟨before, registered, registered'⟩ := h.registered
  have own' : w'.context.scriptId = some script := h.context ▸ h.own
  have run : ∀ v : World, v.context.scriptId = some script → Builtin.subscribeTo names v =
      .ok () { v with subscriptions := v.subscriptions.registerFor script names } :=
    fun ⟨c, s⟩ own => by
      obtain ⟨_, _⟩ := c
      cases own
      rfl
  rw [run w h.own, run w' own']
  refine .ok ⟨h.context, h.own, before ++ names, ?_, ?_⟩
  · rw [Subscriptions.registerFor_append, ← registered]
  · rw [Subscriptions.registerFor_append, ← registered']

end World.Twin

/-- To differ in the registry only is kept by all that a program does to its world. -/
theorem World.twin_simulation (script : String) (s s' : Subscriptions) :
    World.Simulation (World.Twin script s s') where
  globals := fun _ _ h => by rw [h.context]
  natives := fun _ _ h => by rw [h.context]
  native := fun w _ h f lent args =>
    h.onContext (Context.goes_onEffects (.inl ⟨f, lent, args, rfl⟩))
  builtin := by
    intro b console args
    have quiet : ∀ {α : Type} (act : Act Context α), Goes Context.Change act →
        Respects (World.Twin script s s') (World.onContext act) :=
      fun act goes w w' h => h.onContext (goes w.context)
    unfold Builtin.call
    split
    · exact Respects.bind (fun w w' h => h.subscribeTo _) fun _ => respects_pure _
    · exact (respects_ofExcept _).bind fun message =>
        (quiet _ (goes_modify fun c => .announce c message.1 message.2)).bind fun _ =>
        respects_pure _
    · exact (quiet _ (Builtin.writeLog_goes Context.Change.asides console args)).bind fun _ =>
        respects_pure _
    · exact (respects_ofExcept _).bind fun name =>
        (quiet _ (Context.table_goes Context.Change.asides name)).bind fun _ => respects_pure _
    · exact respects_ofExcept _
  method := fun receiver name args w _ h => h.onContext (receiver.callMethod_goes name args _)
  property := fun _ _ h receiver name => by rw [h.context]

/-- What has been done in twin worlds is told in the same way, and leaves twin worlds. -/
theorem Machine.finish_twin {outcome : Except ScriptError Value} {m : Machine} {v : World}
    (twin : World.Twin script s s' m.world v) :
    (m.finish outcome).1 = (finish outcome { m with world := v }).1 ∧
      (m.finish outcome).2.context = (finish outcome { m with world := v }).2.context ∧
      ∃ names, (m.finish outcome).2.subscriptions = s.registerFor script names ∧
        (finish outcome { m with world := v }).2.subscriptions = s'.registerFor script names := by
  have effects : v.context = m.world.context := twin.context.symm
  cases outcome with
  | ok value =>
    refine ⟨?_, ?_, twin.registered⟩
    · simp only [finish, effects]
    · simp only [finish, effects]
  | error e =>
    refine ⟨?_, ?_, twin.registered⟩
    · simp only [finish, effects, failureOf]
    · simp only [finish, effects]

namespace Program

/-- **A run in the context of a script does not see the registry.** It gives the same and leaves the
same context whatever the registry is, and subscribes to the same names. -/
theorem run_twin (p : Program) (limits : Limits) (c : Context) (s s' : Subscriptions)
    (own : c.scriptId = some script) :
    (p.run limits ⟨c, s⟩).1 = (p.run limits ⟨c, s'⟩).1 ∧
      (p.run limits ⟨c, s⟩).2.context = (p.run limits ⟨c, s'⟩).2.context ∧
      ∃ names, (p.run limits ⟨c, s⟩).2.subscriptions = s.registerFor script names ∧
        (p.run limits ⟨c, s'⟩).2.subscriptions = s'.registerFor script names := by
  have start : World.Twin script s s' ⟨c, s⟩ ⟨c, s'⟩ := ⟨rfl, own, [], rfl, rfl⟩
  obtain ⟨outcome, m, v, twin, run, run'⟩ :=
    run_alike (World.twin_simulation script s s') limits p start
  rw [run, run']
  exact Machine.finish_twin twin

/-- Nor does an event. -/
theorem runEvent_twin (p : Program) (limits : Limits) (name : String) (args : List Value)
    (c : Context) (s s' : Subscriptions) (own : c.scriptId = some script) :
    (p.runEvent limits name args ⟨c, s⟩).1 = (p.runEvent limits name args ⟨c, s'⟩).1 ∧
      (p.runEvent limits name args ⟨c, s⟩).2.context =
        (p.runEvent limits name args ⟨c, s'⟩).2.context ∧
      ∃ names, (p.runEvent limits name args ⟨c, s⟩).2.subscriptions =
          s.registerFor script names ∧
        (p.runEvent limits name args ⟨c, s'⟩).2.subscriptions = s'.registerFor script names := by
  have start : World.Twin script s s' ⟨c, s⟩ ⟨c, s'⟩ := ⟨rfl, own, [], rfl, rfl⟩
  obtain ⟨outcome, m, v, twin, run, run'⟩ :=
    runEvent_alike (World.twin_simulation script s s') limits p name args start
  rw [run, run']
  exact Machine.finish_twin twin

end Program

end SheetScript
