import SheetScript.Engine.Basic
import SheetScript.Proofs.Run.Change
import SheetScript.Proofs.Run.History

/-!
# The history of an engine

Whatever is done with an engine, its registry of subscriptions comes by calls to the registry, and
so it tells the history of these calls.

* `Engine.Step` lists what can be done with an engine.
* `Engine.LeftBy` says how the context and the registry after a run have come;
  `Engine.runScript_leftBy` and `Engine.runEvent_leftBy` say it of stored scripts.
* `Subscriptions.Tells` says that a registry is the relation of its history, read both ways, and
  counts what is in it.
* `Engine.registry_tells_history`: every registry tells its history, that of an engine included.
-/

namespace SheetScript

open Relation

namespace Subscriptions

/-- A registry comes from another by calls. -/
def Follows (s t : Subscriptions) : Prop := ∃ calls : List Call, t = calls.foldl perform s

variable {s t u : Subscriptions}

theorem Follows.refl (s : Subscriptions) : s.Follows s := ⟨[], rfl⟩

theorem Follows.perform (s : Subscriptions) (call : Call) : s.Follows (s.perform call) :=
  ⟨[call], rfl⟩

theorem Follows.trans (h : s.Follows t) (h' : t.Follows u) : s.Follows u := by
  obtain ⟨calls, rfl⟩ := h
  obtain ⟨more, rfl⟩ := h'
  exact ⟨calls ++ more, List.foldl_append.symm⟩

/-- What a registry holds is what a history of calls says. -/
structure Tells (s : Subscriptions) (history : List Call) : Prop where
  dependencies : ∀ script attr, attr ∈ s.dependencies script ↔ Stands history script attr
  subscribers : ∀ script attr, script ∈ s.subscribers attr ↔ Stands history script attr
  current : s.current = currentAfter history
  /-- The scripts that read anything are counted. -/
  scriptCount : (s.scriptCount : ℕ∞) = {script | s.dependencies script ≠ []}.encard
  /-- The attributes that are read are counted. -/
  attributeCount : (s.attributeCount : ℕ∞) = {attr | s.subscribers attr ≠ []}.encard

theorem tells_ofHistory (history : List Call) : (ofHistory history).Tells history where
  dependencies := fun _ _ => mem_dependencies_ofHistory
  subscribers := fun _ _ => mem_subscribers_ofHistory
  current := current_ofHistory history
  scriptCount := (tidy_ofHistory history).byScript.length_eq_encard
  attributeCount := (tidy_ofHistory history).byAttribute.length_eq_encard

end Subscriptions

open Subscriptions (Call Follows ofHistory)

/-! ## Runs -/

theorem World.follows_of_changes {w w' : World} (h : ReflTransGen World.Change w w') :
    w.subscriptions.Follows w'.subscriptions := by
  induction h with
  | refl => exact .refl _
  | tail _ change ih =>
    cases change with
    | context => exact ih
    | subscribe script names => exact ih.trans (.perform _ (.registerFor script names))

/-- A subscription that is refused leaves its world as it is. -/
theorem Builtin.subscribeTo_error {names : List String} {w w' : World} {err : ScriptError}
    (h : subscribeTo names w = .error err w') : err = .noScriptContext ∧ w' = w := by
  obtain ⟨c, s⟩ := w
  obtain ⟨script, _⟩ := c
  cases script with
  | some script => nomatch h
  | none =>
    obtain ⟨current, _⟩ := s
    cases current with
    | some script => nomatch h
    | none =>
      cases h
      exact ⟨rfl, rfl⟩

namespace Engine

variable {e e' : Engine}

/-! ## Steps -/

/-- Something that is done with an engine. -/
inductive Step : Engine → Engine → Prop
  /-- A call to the registry. -/
  | call (e : Engine) (call : Call) : Step e { e with subscriptions := e.subscriptions.perform call }
  /-- A look-up in the cache. -/
  | fetch (e : Engine) (id source : String) : Step e { e with cache := (e.cache.fetch id source).2 }
  /-- A script is dropped from the cache. -/
  | invalidate (e : Engine) (id : String) : Step e { e with cache := e.cache.invalidate id }
  /-- All scripts are dropped from the cache. -/
  | clearCache (e : Engine) : Step e { e with cache := e.cache.clear }
  /-- The program of a script is asked for. -/
  | program (e : Engine) (id source : String) : Step e (e.program? id source).2
  | run (e : Engine) (p : Program) (c : Context) : Step e (e.run p c).2.2
  | runSource (e : Engine) (source : String) (c : Context) : Step e (e.runSource source c).2.2
  | runScript (e : Engine) (script : Script) (c : Context) : Step e (e.runScript script c).2.2
  | runEvent (e : Engine) (script : Script) (event : String) (args : List Value) (c : Context) :
    Step e (e.runEvent script event args c).2.2
  | forget (e : Engine) (id : String) : Step e (e.forget id)

theorem program?_follows (e : Engine) (id source : String) :
    e.subscriptions.Follows (e.program? id source).2.subscriptions := by
  unfold program?
  split
  · exact .perform _ (.clear id)
  · exact .perform _ (.clear id)
  · exact .refl _

/-! ## What a run leaves -/

/-- What is left has come by changes from a context and a registry, but for the effects. -/
def LeftBy (start : World) (ran : Ran) : Prop :=
  ∃ w, ReflTransGen World.Change start w ∧ ran.2.2.subscriptions = w.subscriptions ∧
    ran.2.1 = { w.context with effects := ran.2.1.effects }

theorem LeftBy.follows {start : World} {ran : Ran} (h : LeftBy start ran) :
    start.subscriptions.Follows ran.2.2.subscriptions := by
  obtain ⟨w, path, registry, -⟩ := h
  rw [registry]
  exact World.follows_of_changes path

theorem leftBy_refl (result : RunResult) (c : Context) (e : Engine) :
    LeftBy ⟨c, e.subscriptions⟩ (result, c, e) := ⟨⟨c, e.subscriptions⟩, .refl, rfl, rfl⟩

theorem inWorld_leftBy {c : Context} {act : World → RunResult × World}
    {outcome : Except ScriptError Value} {m : Machine}
    (path : ReflTransGen World.Change ⟨c, e.subscriptions⟩ m.world)
    (run : act ⟨c, e.subscriptions⟩ = m.finish outcome) :
    LeftBy ⟨c, e.subscriptions⟩ (e.inWorld c act) := by
  unfold inWorld
  rw [run]
  cases outcome with
  | ok value => exact ⟨m.world, path, rfl, rfl⟩
  | error err => exact ⟨m.world, path, rfl, rfl⟩

theorem run_leftBy (e : Engine) (p : Program) (c : Context) :
    LeftBy ⟨c, e.subscriptions⟩ (e.run p c) := by
  obtain ⟨outcome, m, path, run⟩ := p.run_changes e.config.limits ⟨c, e.subscriptions⟩
  exact inWorld_leftBy path run

/-- **What a stored script leaves** has come by changes from its context, named or not, after calls
to the registry. -/
theorem runScript_leftBy (e : Engine) (script : Script) (c : Context) :
    ∃ start s, (start = c ∨ start = c.orScript script.id) ∧ e.subscriptions.Follows s ∧
      LeftBy ⟨start, s⟩ (e.runScript script c) := by
  unfold runScript
  split_ifs
  · exact ⟨c, _, Or.inl rfl, .refl _, leftBy_refl _ c e⟩
  · dsimp only
    have asked := e.program?_follows script.id script.source
    generalize e.program? script.id script.source = found at asked
    rcases found with ⟨err | p, e'⟩
    · exact ⟨_, _, Or.inr rfl, asked, leftBy_refl _ _ e'⟩
    · exact ⟨_, _, Or.inr rfl, asked.trans (.perform _ (.clear script.id)),
        run_leftBy (e'.clearSubscriptions script.id) p _⟩

/-- What an event of a stored script leaves has come in the same way. -/
theorem runEvent_leftBy (e : Engine) (script : Script) (event : String) (args : List Value)
    (c : Context) : ∃ start s, (start = c ∨ start = c.orScript script.id) ∧
      e.subscriptions.Follows s ∧ LeftBy ⟨start, s⟩ (e.runEvent script event args c) := by
  unfold runEvent handle
  split_ifs
  · exact ⟨c, _, Or.inl rfl, .refl _, leftBy_refl _ c e⟩
  · dsimp only
    have asked := e.program?_follows script.id script.source
    generalize e.program? script.id script.source = found at asked
    rcases found with ⟨err | p, e'⟩
    · exact ⟨_, _, Or.inr rfl, asked, leftBy_refl _ _ e'⟩
    · refine ⟨_, _, Or.inr rfl, asked, ?_⟩
      dsimp only
      cases p.function? event with
      | none => exact leftBy_refl _ _ e'
      | some f =>
        obtain ⟨outcome, m, path, run⟩ := p.runEvent_changes e'.config.limits event
          (fitArgs f.params.length args) ⟨c.orScript script.id, e'.subscriptions⟩
        exact inWorld_leftBy path run

/-! ## The history of an engine -/

/-- Whatever is done with an engine, its registry changes by calls only. -/
theorem Step.follows (h : Step e e') : e.subscriptions.Follows e'.subscriptions := by
  cases h with
  | call call => exact .perform _ call
  | fetch | invalidate | clearCache => exact .refl _
  | program id source => exact e.program?_follows id source
  | run p c => exact (e.run_leftBy p c).follows
  | runSource source c =>
    unfold Engine.runSource
    cases Program.ofSource? source with
    | ok p => exact (e.run_leftBy p c).follows
    | error err => exact .refl _
  | runScript script c =>
    obtain ⟨_, _, -, asked, left⟩ := e.runScript_leftBy script c
    exact asked.trans left.follows
  | runEvent script event args c =>
    obtain ⟨_, _, -, asked, left⟩ := e.runEvent_leftBy script event args c
    exact asked.trans left.follows
  | forget id => exact .perform _ (.clear id)

theorem follows_of_steps (h : ReflTransGen Step e e') :
    e.subscriptions.Follows e'.subscriptions := by
  induction h with
  | refl => exact .refl _
  | tail _ step ih => exact ih.trans step.follows

/-- **The registry tells its history.** After any calls, a script reads an attribute, and the
attribute is read by the script, exactly if the pair was registered after the last call that clears
the script; the scripts and attributes of such pairs are counted. Whatever is done with an engine
continues the history of its registry by such calls. A subscription without a script is refused, and
a refusal changes nothing. -/
theorem registry_tells_history :
    (∀ history : List Call, (ofHistory history).Tells history) ∧
    (∀ (e e' : Engine) (past : List Call), e.subscriptions = ofHistory past →
      ReflTransGen Step e e' → ∃ calls, e'.subscriptions = ofHistory (past ++ calls)) ∧
    (∀ (s : Subscriptions) (attributes : List String) (err : ScriptError),
      s.register attributes = .error err ↔ s.current = none ∧ err = .noScriptContext) ∧
    (∀ (s : Subscriptions) (attributes : List String) (err : ScriptError),
      s.register attributes = .error err → s.perform (.register attributes) = s) ∧
    ∀ (names : List String) (w w' : World) (err : ScriptError),
      Builtin.subscribeTo names w = .error err w' → err = .noScriptContext ∧ w' = w := by
  refine ⟨Subscriptions.tells_ofHistory, fun e e' past start steps => ?_, fun s attributes err =>
    Subscriptions.register_eq_error_iff, fun s attributes err refused => ?_,
    fun names w w' err => Builtin.subscribeTo_error⟩
  · obtain ⟨calls, eq⟩ := follows_of_steps steps
    exact ⟨calls, by rw [eq, start, Subscriptions.ofHistory_append]⟩
  · rw [Subscriptions.perform, refused]

/-- A new engine runs a script and then forgets it; a registry without a current script refuses. -/
theorem short_registry_tells_history :
    (∃ calls, (((Engine.new {}).runScript (.new "a" "r" .attr none "subscribe(\"hp\")")
      {}).2.2.forget "a").subscriptions = ofHistory calls) ∧
    ({} : Subscriptions).perform (.register ["hp"]) = {} :=
  ⟨registry_tells_history.2.1 (.new {}) _ [] rfl (.tail (.single (.runScript _ _ _)) (.forget _ _)),
    registry_tells_history.2.2.2.1 {} ["hp"] .noScriptContext rfl⟩

end Engine

end SheetScript
