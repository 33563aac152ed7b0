import SheetScript.Proofs.Cascade.Change
import SheetScript.Proofs.Cascade.Disabled
import SheetScript.Proofs.Engine.Isolation
import SheetScript.Proofs.Run.Watch

/-!
# What a script reads after a run

A script is subscribed anew by each of its runs: what it read before is dropped when its program
starts. A run that fails has come to some point of the program, and the calls of `subscribe` up to
that point have been made.

* `World.Asks`: a step of a run is a call of `subscribe` that names an attribute.
* `World.Trail.mem_dependencies_iff`: what is subscribed on the way stays, and there is nothing
  else.
* `Cascade.subscribed_after_run`: after a run, failed or not, a script is subscribed to what its
  steps have asked for, and a change of one of these names runs it again.
* `Cascade.exists_name_dropped`: so a run that fails may drop a name.
-/

namespace SheetScript

open Act Relation

/-! ## Steps and the registry -/

/-- From a world to the next, `subscribe` is called with that name among others. -/
def World.Asks (name : String) (w next : World) : Prop :=
  ∃ console args, name ∈ args.flatMap Builtin.attributeNames ∧
    next = (Builtin.subscribe.call console args).left w

/-- Of the worlds passed, some two in a row are such a step. -/
def World.Asked (name : String) (passed : List World) : Prop :=
  ∃ w next, [w, next] <:+: passed ∧ World.Asks name w next

/-- A step in the context of a script calls `subscribe` or leaves the registry alone. -/
def World.Subscribes (id : String) (w next : World) : Prop :=
  w.context.scriptId = some id → next.context.scriptId = some id ∧
    (next.subscriptions = w.subscriptions ∨
      ∃ console args, next = (Builtin.subscribe.call console args).left w)

namespace World

variable {id name : String} {w next : World}

theorem subscriptions_onContext {α : Type} (act : Act Context α) (w : World) :
    ((onContext act).left w).subscriptions = w.subscriptions := by
  rw [onContext, left_on]

theorem scriptId_onContext {α : Type} {act : Act Context α} {w : World}
    (h : ReflTransGen Context.Change w.context (act.left w.context)) :
    ((onContext act).left w).context.scriptId = w.context.scriptId := by
  rw [onContext, left_on]
  exact Context.scriptId_of_changes h

/-- In the context of a script, a call of `subscribe` registers what its arguments name. -/
theorem subscribe_left (own : w.context.scriptId = some id) (console : Bool) (args : List Value) :
    (Builtin.subscribe.call console args).left w =
      { w with
        subscriptions :=
          w.subscriptions.registerFor id (args.flatMap Builtin.attributeNames) } := by
  obtain ⟨c, s⟩ := w
  obtain ⟨_, _⟩ := c
  cases own
  rfl

/-- The other functions leave the registry alone. -/
theorem subscriptions_builtin {b : Builtin} (other : b ≠ .subscribe) (console : Bool)
    (args : List Value) (w : World) :
    ((b.call console args).left w).subscriptions = w.subscriptions := by
  have quiet : ∀ {α : Type} (act : Act Context α),
      Goes (fun w w' : World => w'.subscriptions = w.subscriptions) (onContext act) :=
    fun act w => .single (subscriptions_onContext act w)
  have path : Goes (fun w w' : World => w'.subscriptions = w.subscriptions)
      (b.call console args) := by
    unfold Builtin.call
    split
    · exact absurd rfl other
    · exact (goes_ofExcept _).bind fun _ => (quiet _).bind fun _ => goes_pure _
    · exact (quiet _).bind fun _ => goes_pure _
    · exact (goes_ofExcept _).bind fun _ => (quiet _).bind fun _ => goes_pure _
    · exact goes_ofExcept _
  have kept := path w
  generalize (b.call console args).left w = w' at kept
  induction kept with
  | refl => rfl
  | tail _ step ih => exact step.trans ih

/-- **Only `subscribe` writes to the registry.** -/
theorem doors_subscribes (id : String) : Doors (Subscribes id) where
  same := fun _ own => ⟨own, .inl rfl⟩
  builtin := fun b console args w own => by
    refine ⟨(subscriptions_of_changes (b.call_changes console args w) own).1, ?_⟩
    by_cases subscribe : b = .subscribe
    · subst subscribe
      exact .inr ⟨console, args, rfl⟩
    · exact .inl (subscriptions_builtin subscribe console args w)
  native := fun w f lent args own =>
    ⟨(scriptId_onContext (Context.goes_onEffects (.inl ⟨f, lent, args, rfl⟩))).trans own,
      .inl (subscriptions_onContext _ w)⟩
  method := fun receiver method args w own =>
    ⟨(scriptId_onContext (receiver.callMethod_goes method args _)).trans own,
      .inl (subscriptions_onContext _ w)⟩

/-- What a script reads after a step. -/
theorem Subscribes.mem_dependencies_iff (step : Subscribes id w next)
    (own : w.context.scriptId = some id) :
    name ∈ next.subscriptions.dependencies id ↔
      name ∈ w.subscriptions.dependencies id ∨ Asks name w next := by
  have after : ∀ console args, next = (Builtin.subscribe.call console args).left w →
      (name ∈ next.subscriptions.dependencies id ↔
        name ∈ w.subscriptions.dependencies id ∨
          name ∈ args.flatMap Builtin.attributeNames) := by
    rintro console args rfl
    rw [subscribe_left own, Subscriptions.mem_dependencies_registerFor]
    tauto
  constructor
  · intro mem
    rcases (step own).2 with same | ⟨console, args, call⟩
    · exact .inl (same ▸ mem)
    · exact ((after console args call).1 mem).imp_right fun named => ⟨console, args, named, call⟩
  · rintro (before | ⟨console, args, named, call⟩)
    · rcases (step own).2 with same | ⟨console, args, call⟩
      · rwa [same]
      · exact (after console args call).2 (.inl before)
    · exact (after console args call).2 (.inr named)

theorem asked_cons {rest : List World} :
    Asked name (w :: next :: rest) ↔ Asks name w next ∨ Asked name (next :: rest) := by
  have inside : ∀ a b : World,
      [a, b] <:+: w :: next :: rest ↔ (a = w ∧ b = next) ∨ [a, b] <:+: next :: rest := by
    intro a b
    rw [List.infix_cons_iff, List.cons_prefix_cons, List.cons_prefix_cons]
    simp only [List.nil_prefix, and_true]
  unfold Asked
  simp only [inside, or_and_right, exists_or]
  refine or_congr_left ⟨?_, fun h => ⟨w, next, ⟨rfl, rfl⟩, h⟩⟩
  rintro ⟨_, _, ⟨rfl, rfl⟩, h⟩
  exact h

theorem not_asked_singleton : ¬Asked name [w] := by
  rintro ⟨_, _, inside, -⟩
  exact absurd inside.length_le (by simp)

/-- **What a script reads at the end of a way** is what it read at the start and what has been asked
for on the way. -/
theorem Trail.mem_dependencies_iff {passed : List World} {last : World}
    (trail : Trail (Subscribes id) w passed last) (own : w.context.scriptId = some id) :
    name ∈ last.subscriptions.dependencies id ↔
      name ∈ w.subscriptions.dependencies id ∨ Asked name (w :: passed) := by
  induction trail with
  | nil w => exact (or_iff_left not_asked_singleton).symm
  | cons step _ ih => rw [ih (step own).1, step.mem_dependencies_iff own, asked_cons, or_assoc]

end World

/-! ## A run of a script -/

namespace Engine

variable {e : Engine} {script : Script} {c : Context} {p : CachedProgram} {how : FetchOutcome}

/-- The world in which the program of a script starts: the script is subscribed to nothing. -/
def startOf (e : Engine) (script : Script) (c : Context) : World :=
  ⟨c.orScript script.id, e.subscriptions.clear script.id⟩

/-- The worlds that a run of a script passes, from the one in which its program starts. -/
def passed (e : Engine) (script : Script) (c : Context) (p : Program) : List World :=
  e.startOf script c :: (p.watch e.config.limits (e.startOf script c)).1

/-- A run of a script comes to what it comes to when it is watched. -/
theorem runScript_eq_watch (enabled : script.enabled)
    (parsed : (e.cache.fetch script.id script.source).1 = .ok (p, how)) :
    (e.runScript script c).1 = (p.program.watch e.config.limits (e.startOf script c)).2.1 ∧
      (e.runScript script c).2.2.subscriptions =
        (p.program.watch e.config.limits (e.startOf script c)).2.2.subscriptions := by
  rw [runScript_eq e script c enabled, parsed, Program.watch_eq]
  exact ⟨rfl, rfl⟩

/-- **After a run, a script is subscribed to what its steps have asked for**, whether or not the run
has failed. -/
theorem mem_dependencies_runScript (enabled : script.enabled) (own : c.IsFor script.id)
    (parsed : (e.cache.fetch script.id script.source).1 = .ok (p, how)) {name : String} :
    name ∈ (e.runScript script c).2.2.subscriptions.dependencies script.id ↔
      World.Asked name (e.passed script c p.program) := by
  have named : (e.startOf script c).context.scriptId = some script.id := own.orScript_own
  obtain ⟨outcome, m, trail, finish⟩ :=
    p.program.ends_watch e.config.limits (World.doors_subscribes script.id) (e.startOf script c)
  have last : (m.finish outcome).2.subscriptions = m.world.subscriptions := by
    cases outcome with
    | ok value => rfl
    | error err => rfl
  have nothing : name ∉ (e.startOf script c).subscriptions.dependencies script.id := by
    rw [startOf, Subscriptions.dependencies_clear_self]
    exact List.not_mem_nil
  rw [(runScript_eq_watch enabled parsed).2, finish, last, trail.mem_dependencies_iff named,
    or_iff_right nothing]
  rfl

end Engine

namespace Cascade

theorem subscribed_evaluate (c : Cascade) (script : Script) :
    (c.evaluate script).2.2.subscribed script =
      (c.engine.runScript script (c.contextOf script)).2.2.subscriptions.dependencies script.id :=
  rfl

/-- A change of a name that a script is subscribed to runs the script, unless it is cut short. -/
theorem runs_of_subscribed {c : Cascade} (wf : c.WellFormed) {script : Script}
    (mem : script ∈ c.members) {name : String} (read : name ∈ c.subscribed script)
    {names : List String} (changed : name ∈ names)
    (clear : (c.attributesChanged names).1.truncated = false) :
    script.id ∈ (c.attributesChanged names).1.ids := by
  obtain ⟨p, eq, rounds, ended⟩ := Progress.rounds_attributesChanged c names
  rw [eq] at clear ⊢
  refine (changeRun_of_rounds wf.toKeyed rounds ended).reached clear script ?_
  exact .direct mem changed (readsName_iff.2 ((wf.inverse script.id name).1 read))

/-- **What a script reads after a run**, be it one that fails, alone or in a cascade. The result is
that of the program watched; the script is subscribed to exactly the names that a call of
`subscribe` has named before the run ended. In any cascade that has the script with these
subscriptions, a change of such a name runs it again, unless the limit of runs cuts the change
short. -/
theorem subscribed_after_run (e : Engine) (script : Script) (c : Context) (enabled : script.enabled)
    (own : c.IsFor script.id) (p : CachedProgram) (how : FetchOutcome)
    (parsed : (e.cache.fetch script.id script.source).1 = .ok (p, how)) :
    (e.runScript script c).1 = (p.program.watch e.config.limits (e.startOf script c)).2.1 ∧
      (∀ name, name ∈ (e.runScript script c).2.2.subscriptions.dependencies script.id ↔
        World.Asked name (e.passed script c p.program)) ∧
      ∀ d : Cascade, d.WellFormed → script ∈ d.members →
        d.subscribed script = (e.runScript script c).2.2.subscriptions.dependencies script.id →
        ∀ names name, name ∈ names → World.Asked name (e.passed script c p.program) →
          (d.attributesChanged names).1.truncated = false →
          script.id ∈ (d.attributesChanged names).1.ids := by
  have read : ∀ {name}, name ∈ (e.runScript script c).2.2.subscriptions.dependencies script.id ↔
      World.Asked name (e.passed script c p.program) :=
    Engine.mem_dependencies_runScript enabled own parsed
  refine ⟨(Engine.runScript_eq_watch enabled parsed).1, fun name => read, ?_⟩
  intro d wf mem same names name changed asked clear
  exact runs_of_subscribed wf mem (same ▸ read.2 asked) changed clear

/-! ## A name that is dropped -/

/-- A script that reads two attributes and fails, before it comes to the second one, when the first
one is large. -/
def wary : Script :=
  .new "w" "r1" .attr (some "b")
    "subscribe(\"A\")\nif Owner.Attribute(\"A\").value > 10:\n    missing\nsubscribe(\"B\")"

/-- A cascade with one script, which has been read and is subscribed to the names. -/
def reading (script : Script) (names : List String) (sheet : Sheet) : Cascade where
  engine :=
    { config := {}
      cache := (Cache.fetch { capacity := 512 } script.id script.source).2
      subscriptions := ({} : Subscriptions).registerFor script.id names }
  sheet := sheet
  scripts := [(script.id, script)]

theorem wellFormed_reading (script : Script) (names : List String) (sheet : Sheet) :
    (reading script names sheet).WellFormed where
  sorted := List.pairwise_singleton _ _
  ids := fun entry mem => by rw [List.mem_singleton.1 mem]
  inverse := Subscriptions.inverse_empty.registerFor _ _
  faithful := fun s mem => by
    obtain rfl := List.mem_singleton.1 mem
    exact (Cache.faithful_of_absent rfl).fetch fun _ _ => rfl

/-- The script is subscribed to both attributes, and by now the first one is large. -/
def watching : Cascade := reading wary ["A", "B"] (twoAttributes (.integer 11) .null)

theorem wellFormed_watching : watching.WellFormed := wellFormed_reading _ _ _

theorem mem_watching : wary ∈ watching.members := List.mem_singleton_self wary

/-- The program of the script is held under its source. The script fails and has come to its first
subscription only, and a change of that runs all that it reaches. -/
theorem watching_fails :
    (watching.engine.cache.fetch wary.id wary.source).1.toOption.map (·.2) = some .hit ∧
      (watching.evaluate wary).1.failure ≠ none ∧
      (watching.evaluate wary).2.2.subscribed wary = ["A"] ∧
      ((watching.evaluate wary).2.2.attributesChanged ["A"]).1.truncated = false := by
  decide +kernel

theorem watching_hit :
    ∃ p, (watching.engine.cache.fetch wary.id wary.source).1 = .ok (p, .hit) := by
  have held := watching_fails.1
  cases found : (watching.engine.cache.fetch wary.id wary.source).1 with
  | error err =>
    rw [found] at held
    nomatch held
  | ok found' =>
    obtain ⟨p, how⟩ := found'
    rw [found] at held
    obtain rfl : how = .hit := Option.some.inj held
    exact ⟨p, rfl⟩

/-- What the script asked for before it failed stays, and a change of it runs the script again. -/
theorem watching_subscribed_after_run :
    ∃ p, (watching.engine.cache.fetch wary.id wary.source).1 = .ok (p, .hit) ∧
      (watching.evaluate wary).1.failure ≠ none ∧
      World.Asked "A" (watching.engine.passed wary (watching.contextOf wary) p.program) ∧
      ¬World.Asked "B" (watching.engine.passed wary (watching.contextOf wary) p.program) ∧
      "w" ∈ ((watching.evaluate wary).2.2.attributesChanged ["A"]).1.ids := by
  obtain ⟨p, hit⟩ := watching_hit
  obtain ⟨-, fails, subscribed, clear⟩ := watching_fails
  obtain ⟨-, read, again⟩ := subscribed_after_run watching.engine wary (watching.contextOf wary)
    rfl (.inr (watching.contextOf_own wary)) p .hit hit
  have after : (watching.engine.runScript wary
      (watching.contextOf wary)).2.2.subscriptions.dependencies wary.id = ["A"] :=
    (subscribed_evaluate watching wary).symm.trans subscribed
  have first : World.Asked "A" (watching.engine.passed wary (watching.contextOf wary) p.program) :=
    (read "A").1 (after ▸ List.mem_singleton_self "A")
  have second : ¬World.Asked "B"
      (watching.engine.passed wary (watching.contextOf wary) p.program) := fun asked => by
    have mem := (read "B").2 asked
    rw [after] at mem
    exact absurd mem (by decide)
  have mem : wary ∈ (watching.evaluate wary).2.2.members :=
    (watching.sameFrame_evaluate wary).members_eq ▸ mem_watching
  refine ⟨p, hit, fails, first, second, ?_⟩
  exact again (watching.evaluate wary).2.2 (wellFormed_watching.evaluate mem_watching) mem
    (subscribed_evaluate watching wary) ["A"] "A" List.mem_cons_self first clear

/-- A run that fails may drop a name, although the source is as before: one that the script would
have asked for after the point at which it failed. -/
theorem exists_name_dropped :
    ¬∀ (c : Cascade) (script : Script) (p : CachedProgram) (name : String), c.WellFormed →
      script ∈ c.members → script.enabled →
      (c.engine.cache.fetch script.id script.source).1 = .ok (p, .hit) →
      (c.evaluate script).1.failure ≠ none → name ∈ c.subscribed script →
      name ∈ (c.evaluate script).2.2.subscribed script := by
  intro kept
  obtain ⟨p, hit⟩ := watching_hit
  obtain ⟨-, fails, subscribed, -⟩ := watching_fails
  have mem := kept watching wary p "B" wellFormed_watching mem_watching rfl hit fails (by decide)
  rw [subscribed] at mem
  exact absurd mem (by decide)

end Cascade

end SheetScript
