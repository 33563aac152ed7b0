import SheetScript.Proofs.Engine.History
import SheetScript.Proofs.Engine.Script

/-!
# The history of an engine does not show in a run

Whatever has been done with an engine before, a script runs on it as on a new engine with the same
options.

* `Engine.Operation` is what can be done with an engine, as data; `Engine.step_iff` says that the
  operations are the steps of an engine. `Engine.after` is the engine that a history leads to.
* `Engine.Unmixed` says that no source of a history has the digest of another source at hand. Then
  the cache stays faithful to the script (`Engine.faithful_after`).
* `Engine.runEvent_alike` is `Engine.runScript_alike` for events.
* `Engine.history_never_shows` is the statement about all histories.
-/

namespace SheetScript

/-! ## Contexts -/

namespace Context

variable {c : Context} {id : String}

/-- The context is for a script: it names the script, or none yet. -/
def IsFor (c : Context) (id : String) : Prop := c.scriptId = none ∨ c.scriptId = some id

theorem IsFor.orScript_own (h : c.IsFor id) : (c.orScript id).scriptId = some id := by
  rcases h with unnamed | named
  · rw [orScript, unnamed]
    rfl
  · rw [orScript_of_own named, named]

end Context

namespace Engine

variable {e e' : Engine} {script : Script} {c : Context}

/-! ## What an operation does to the cache -/

theorem program?_cache (e : Engine) (id source : String) :
    (e.program? id source).2.cache = (e.cache.fetch id source).2 ∧
      (e.program? id source).2.config = e.config := by
  unfold program?
  generalize e.cache.fetch id source = fetched
  obtain ⟨err | ⟨p, _ | _ | _⟩, cache⟩ := fetched
  all_goals exact ⟨rfl, rfl⟩

/-- With a faithful cache, the program of a script is the program of its source. -/
theorem program?_of_faithful {id source : String} (faithful : e.cache.Faithful id source) :
    (e.program? id source).1 = Program.ofSource? source := by
  rw [← faithful.fetch_program]
  unfold program?
  generalize e.cache.fetch id source = fetched
  obtain ⟨err | ⟨p, _ | _ | _⟩, cache⟩ := fetched
  all_goals rfl

theorem runSource_cache (e : Engine) (source : String) (c : Context) :
    (e.runSource source c).2.2.cache = e.cache ∧
      (e.runSource source c).2.2.config = e.config := by
  unfold runSource
  cases Program.ofSource? source with
  | ok p => exact ⟨rfl, rfl⟩
  | error err => exact ⟨rfl, rfl⟩

theorem runScript_cache (e : Engine) (c : Context) (enabled : script.enabled) :
    (e.runScript script c).2.2.cache = (e.cache.fetch script.id script.source).2 ∧
      (e.runScript script c).2.2.config = e.config := by
  rw [runScript_eq e script c enabled]
  cases (e.cache.fetch script.id script.source).1 with
  | error err => exact ⟨rfl, rfl⟩
  | ok found => exact ⟨rfl, rfl⟩

theorem runEvent_disabled (e : Engine) (event : String) (args : List Value) (c : Context)
    (disabled : script.enabled = false) : e.runEvent script event args c = ({}, c, e) := by
  rw [runEvent, if_pos (by simp [disabled])]

/-- **What an event of a script comes to.** -/
theorem runEvent_eq (e : Engine) (script : Script) (event : String) (args : List Value)
    (c : Context) (enabled : script.enabled) :
    e.runEvent script event args c =
      let asked := (e.program? script.id script.source).2
      match (e.program? script.id script.source).1 with
      | .error err => (rejected err, c.orScript script.id, asked)
      | .ok p =>
        match p.function? event with
        | none => ({}, c.orScript script.id, asked)
        | some f => asked.inWorld (c.orScript script.id)
            (p.runEvent asked.config.limits event (fitArgs f.params.length args)) := by
  unfold runEvent handle
  rw [if_neg (by simp [enabled])]
  dsimp only
  generalize e.program? script.id script.source = found
  obtain ⟨err | p, asked⟩ := found
  · rfl
  · rfl

theorem runEvent_cache (e : Engine) (event : String) (args : List Value) (c : Context)
    (enabled : script.enabled) :
    (e.runEvent script event args c).2.2.cache = (e.cache.fetch script.id script.source).2 ∧
      (e.runEvent script event args c).2.2.config = e.config := by
  rw [runEvent_eq e script event args c enabled, ← (e.program?_cache script.id script.source).1,
    ← (e.program?_cache script.id script.source).2]
  dsimp only
  cases (e.program? script.id script.source).1 with
  | error err => exact ⟨rfl, rfl⟩
  | ok p =>
    dsimp only
    cases p.function? event with
    | none => exact ⟨rfl, rfl⟩
    | some f => exact ⟨rfl, rfl⟩

/-! ## Histories -/

/-- Something that can be done with an engine. -/
inductive Operation where
  /-- A call to the registry. -/
  | call (call : Subscriptions.Call)
  /-- A look-up in the cache. -/
  | fetch (id source : String)
  /-- A script is dropped from the cache. -/
  | invalidate (id : String)
  /-- All scripts are dropped from the cache. -/
  | clearCache
  /-- The program of a script is asked for. -/
  | program (id source : String)
  | run (p : Program) (c : Context)
  | runSource (source : String) (c : Context)
  | runScript (script : Script) (c : Context)
  | runEvent (script : Script) (event : String) (args : List Value) (c : Context)
  | forget (id : String)

/-- The engine after an operation. -/
def perform (e : Engine) : Operation → Engine
  | .call call => { e with subscriptions := e.subscriptions.perform call }
  | .fetch id source => { e with cache := (e.cache.fetch id source).2 }
  | .invalidate id => { e with cache := e.cache.invalidate id }
  | .clearCache => { e with cache := e.cache.clear }
  | .program id source => (e.program? id source).2
  | .run p c => (e.run p c).2.2
  | .runSource source c => (e.runSource source c).2.2
  | .runScript script c => (e.runScript script c).2.2
  | .runEvent script event args c => (e.runEvent script event args c).2.2
  | .forget id => e.forget id

/-- The operations are what can be done with an engine. -/
theorem step_iff : Step e e' ↔ ∃ operation, e' = e.perform operation := by
  constructor
  · intro step
    cases step with
    | call call => exact ⟨.call call, rfl⟩
    | fetch id source => exact ⟨.fetch id source, rfl⟩
    | invalidate id => exact ⟨.invalidate id, rfl⟩
    | clearCache => exact ⟨.clearCache, rfl⟩
    | program id source => exact ⟨.program id source, rfl⟩
    | run p c => exact ⟨.run p c, rfl⟩
    | runSource source c => exact ⟨.runSource source c, rfl⟩
    | runScript script c => exact ⟨.runScript script c, rfl⟩
    | runEvent script event args c => exact ⟨.runEvent script event args c, rfl⟩
    | forget id => exact ⟨.forget id, rfl⟩
  · rintro ⟨operation, rfl⟩
    cases operation with
    | call call => exact .call e call
    | fetch id source => exact .fetch e id source
    | invalidate id => exact .invalidate e id
    | clearCache => exact .clearCache e
    | program id source => exact .program e id source
    | run p c => exact .run e p c
    | runSource source c => exact .runSource e source c
    | runScript script c => exact .runScript e script c
    | runEvent script event args c => exact .runEvent e script event args c
    | forget id => exact .forget e id

/-- The engine after a history. -/
def after (e : Engine) (history : List Operation) : Engine := history.foldl perform e

/-- The source that the cache takes a digest of in an operation. -/
def Operation.source? : Operation → Option String
  | .fetch _ source | .program _ source => some source
  | .runScript script _ | .runEvent script _ _ _ =>
    if script.enabled then some script.source else none
  | .call _ | .invalidate _ | .clearCache | .run _ _ | .runSource _ _ | .forget _ => none

/-- No other source in the history has the digest of a source. -/
def Unmixed (history : List Operation) (source : String) : Prop :=
  ∀ operation ∈ history, ∀ other, operation.source? = some other →
    sha256 other = sha256 source → source = other

theorem perform_config (e : Engine) (operation : Operation) :
    (e.perform operation).config = e.config := by
  cases operation with
  | call | fetch | invalidate | clearCache | run | forget => rfl
  | program id source => exact (e.program?_cache id source).2
  | runSource source c => exact (e.runSource_cache source c).2
  | runScript script c =>
    cases enabled : script.enabled with
    | false => rw [perform, runScript_disabled e c enabled]
    | true => exact (e.runScript_cache c enabled).2
  | runEvent script event args c =>
    cases enabled : script.enabled with
    | false => rw [perform, runEvent_disabled e event args c enabled]
    | true => exact (e.runEvent_cache event args c enabled).2

/-- **An operation keeps the cache faithful**, unless it mixes up two sources. -/
theorem faithful_perform {id source : String} {operation : Operation}
    (faithful : e.cache.Faithful id source)
    (same : ∀ other, operation.source? = some other → sha256 other = sha256 source →
      source = other) : (e.perform operation).cache.Faithful id source := by
  cases operation with
  | call | run => exact faithful
  | fetch other otherSource => exact faithful.fetch fun _ => same _ rfl
  | invalidate other => exact faithful.invalidate other
  | clearCache => exact Cache.faithful_of_absent rfl
  | forget other => exact faithful.invalidate other
  | program other otherSource =>
    rw [perform, (e.program?_cache other otherSource).1]
    exact faithful.fetch fun _ => same _ rfl
  | runSource otherSource c =>
    rw [perform, (e.runSource_cache otherSource c).1]
    exact faithful
  | runScript script c =>
    cases enabled : script.enabled with
    | false =>
      rw [perform, runScript_disabled e c enabled]
      exact faithful
    | true =>
      rw [perform, (e.runScript_cache c enabled).1]
      exact faithful.fetch fun _ => same _ (if_pos enabled)
  | runEvent script event args c =>
    cases enabled : script.enabled with
    | false =>
      rw [perform, runEvent_disabled e event args c enabled]
      exact faithful
    | true =>
      rw [perform, (e.runEvent_cache event args c enabled).1]
      exact faithful.fetch fun _ => same _ (if_pos enabled)

theorem after_config (e : Engine) (history : List Operation) :
    (e.after history).config = e.config := by
  induction history generalizing e with
  | nil => rfl
  | cons operation history ih => exact (ih (e.perform operation)).trans (e.perform_config operation)

theorem faithful_after {id source : String} {history : List Operation}
    (faithful : e.cache.Faithful id source) (unmixed : Unmixed history source) :
    (e.after history).cache.Faithful id source := by
  induction history generalizing e with
  | nil => exact faithful
  | cons operation history ih =>
    exact ih (faithful_perform faithful (unmixed operation (List.mem_cons_self ..)))
      fun later mem => unmixed later (List.mem_cons_of_mem _ mem)

/-! ## Runs on two engines -/

/-- A script that runs has been named to its context. -/
theorem runScript_orScript (e : Engine) (isFor : c.IsFor script.id) (enabled : script.enabled) :
    e.runScript script c = e.runScript script (c.orScript script.id) := by
  rw [runScript_eq e script c enabled, runScript_eq e script _ enabled,
    Context.orScript_of_own isFor.orScript_own]

/-- **What an event of a script does in a context depends on the options alone**, as long as the
cache is faithful. -/
theorem runEvent_alike (isFor : c.IsFor script.id) (config : e.config = e'.config)
    (faithful : e.cache.Faithful script.id script.source)
    (faithful' : e'.cache.Faithful script.id script.source) (event : String) (args : List Value) :
    (e.runEvent script event args c).1 = (e'.runEvent script event args c).1 ∧
      (e.runEvent script event args c).2.1 = (e'.runEvent script event args c).2.1 := by
  cases enabled : script.enabled with
  | false =>
    rw [runEvent_disabled e event args c enabled, runEvent_disabled e' event args c enabled]
    exact ⟨rfl, rfl⟩
  | true =>
    rw [runEvent_eq e script event args c enabled, runEvent_eq e' script event args c enabled,
      program?_of_faithful faithful, program?_of_faithful faithful']
    have options : (e'.program? script.id script.source).2.config =
        (e.program? script.id script.source).2.config := by
      rw [(e.program?_cache _ _).2, (e'.program?_cache _ _).2, config]
    cases Program.ofSource? script.source with
    | error err => exact ⟨rfl, rfl⟩
    | ok p =>
      dsimp only
      cases p.function? event with
      | none => exact ⟨rfl, rfl⟩
      | some f =>
        dsimp only [inWorld]
        rw [options]
        obtain ⟨result, context, -⟩ := p.runEvent_twin
          (e.program? script.id script.source).2.config.limits event
          (fitArgs f.params.length args) (c.orScript script.id)
          (e.program? script.id script.source).2.subscriptions
          (e'.program? script.id script.source).2.subscriptions isFor.orScript_own
        exact ⟨result, context⟩

/-- Running a script leaves what any other script reads as it is. -/
theorem runScript_dependencies_of_ne (own : c.scriptId = some script.id) {id : String}
    (other : id ≠ script.id) :
    (e.runScript script c).2.2.subscriptions.dependencies id = e.subscriptions.dependencies id := by
  rcases runScript_cases e script c own with eq | ⟨-, -, names, registered⟩
  · rw [eq]
  · rw [registered, Subscriptions.dependencies_registerFor_of_ne _ other,
      Subscriptions.dependencies_clear_of_ne _ other]

/-- **The history of an engine does not show in a run.** After any history that mixes up no sources,
an enabled script gives in a context for it the same result, and leaves the same context, as on a
new engine with the same options; so does each of its events. The run leaves what the other scripts
read as it is, and what the script reads is what it would read on the new engine. -/
theorem history_never_shows (config : Config) (history : List Operation) (script : Script)
    (c : Context) (enabled : script.enabled) (isFor : c.IsFor script.id)
    (unmixed : Unmixed history script.source) :
    let e := (new config).after history
    ((e.runScript script c).1 = ((new config).runScript script c).1 ∧
      (e.runScript script c).2.1 = ((new config).runScript script c).2.1) ∧
    (∀ event args,
      (e.runEvent script event args c).1 = ((new config).runEvent script event args c).1 ∧
      (e.runEvent script event args c).2.1 = ((new config).runEvent script event args c).2.1) ∧
    (∀ id, id ≠ script.id → (e.runScript script c).2.2.subscriptions.dependencies id =
      e.subscriptions.dependencies id) ∧
    (e.runScript script c).2.2.subscriptions.dependencies script.id =
      ((new config).runScript script c).2.2.subscriptions.dependencies script.id := by
  intro e
  have options : e.config = (new config).config := after_config _ history
  have start : (new config).cache.Faithful script.id script.source := Cache.faithful_of_absent rfl
  have faithful : e.cache.Faithful script.id script.source := faithful_after start unmixed
  have events := fun event args => runEvent_alike isFor options faithful start event args
  rw [e.runScript_orScript isFor enabled, (new config).runScript_orScript isFor enabled]
  obtain ⟨result, context, subscribed⟩ :=
    runScript_alike isFor.orScript_own options faithful start
  exact ⟨⟨result, context⟩, events, fun id other =>
    runScript_dependencies_of_ne isFor.orScript_own other, subscribed enabled⟩

/-- A script that reads `mp`, where it used to read `hp`. -/
def rewritten : Script := .new "a" "r" .attr none "subscribe(\"mp\")"

/-- The history of the script before it was rewritten: it has run, and another source was no
program. -/
def beforeRewrite : List Operation :=
  [.runScript { rewritten with source := "subscribe(\"hp\")" } {}, .program "b" "1 +"]

theorem unmixed_beforeRewrite : Unmixed beforeRewrite rewritten.source := by
  unfold Unmixed beforeRewrite
  simp only [List.forall_mem_cons, Operation.source?]
  refine ⟨fun other eq same => ?_, fun other eq same => ?_, fun _ mem => ?_⟩
  · obtain rfl := Option.some.inj eq
    revert same
    decide +kernel
  · obtain rfl := Option.some.inj eq
    revert same
    decide +kernel
  · exact absurd mem List.not_mem_nil

/-- Once it is rewritten, the script reads what its new source says, not what it read before. -/
theorem rewritten_history_never_shows :
    (((new {}).after beforeRewrite).runScript rewritten {}).1 =
        ((new {}).runScript rewritten {}).1 ∧
      (((new {}).after beforeRewrite).runScript rewritten {}).2.2.subscriptions.dependencies "a" =
        ["mp"] := by
  obtain ⟨⟨result, -⟩, -, -, subscribed⟩ :=
    history_never_shows {} beforeRewrite rewritten {} rfl (Or.inl rfl) unmixed_beforeRewrite
  refine ⟨result, subscribed.trans ?_⟩
  decide +kernel

end Engine

end SheetScript
