import SheetScript.Proofs.Engine.Cache
import SheetScript.Proofs.Engine.Isolation

/-!
# Scripts whose source has changed

When the program of a script is asked for with another source, what the script reads is dropped. The
engine knows the old source by its cache alone. Once other scripts have filled the cache, the old
source is forgotten, and what the script used to read stays.

* `Engine.Operation.cacheCall?` is the call to the cache that an operation makes, and
  `Engine.cache_after` says that the cache of an engine is that of the calls in its history.
* `Engine.ReadsNothing` says of a script that it is in no pair of the registry.
* `Engine.changed_source_drops_reads` says when a look-up leaves a script that reads nothing; a
  changed source does if the cache has had room for the script since it was last read.
* `Engine.exists_reads_kept`: it need not do so otherwise.
-/

namespace SheetScript

namespace Engine

variable {e : Engine} {l : Recency} {id source : String}

/-! ## The cache in a history -/

/-- The call to the cache that an operation makes. -/
def Operation.cacheCall? : Operation → Option Cache.Call
  | .fetch id source | .program id source => some (.fetch id source)
  | .runScript script _ | .runEvent script _ _ _ =>
    if script.enabled then some (.fetch script.id script.source) else none
  | .invalidate id | .forget id => some (.invalidate id)
  | .clearCache => some .clear
  | .call _ | .run _ _ | .runSource _ _ => none

/-- The calls to the cache in a history. -/
def cacheCalls (history : List Operation) : List Cache.Call :=
  history.filterMap Operation.cacheCall?

theorem cache_perform (e : Engine) (operation : Operation) :
    (e.perform operation).cache = operation.cacheCall?.elim e.cache e.cache.perform := by
  cases operation with
  | call | run | fetch | invalidate | clearCache | forget => rfl
  | program id source => exact (e.program?_cache id source).1
  | runSource source c => exact (e.runSource_cache source c).1
  | runScript script c =>
    rw [Operation.cacheCall?]
    cases enabled : script.enabled with
    | false => rw [perform, runScript_disabled e c enabled]; rfl
    | true => exact (e.runScript_cache c enabled).1
  | runEvent script event args c =>
    rw [Operation.cacheCall?]
    cases enabled : script.enabled with
    | false => rw [perform, runEvent_disabled e event args c enabled]; rfl
    | true => exact (e.runEvent_cache event args c enabled).1

theorem after_concat (e : Engine) (history : List Operation) (operation : Operation) :
    e.after (history ++ [operation]) = (e.after history).perform operation := by
  simp [after]

/-- **The cache of an engine is that of the calls in its history.** -/
theorem cache_after (config : Config) (history : List Operation) :
    ((new config).after history).cache =
      Cache.ofCalls config.cacheCapacity (cacheCalls history) := by
  induction history using List.reverseRecOn with
  | nil => rfl
  | append_singleton history operation ih =>
    have calls : cacheCalls (history ++ [operation]) =
        cacheCalls history ++ operation.cacheCall?.toList := filterMap_concat ..
    rw [after_concat, cache_perform, ih, calls]
    cases operation.cacheCall? with
    | none => simp
    | some call => simp [Cache.ofCalls_concat]

/-- Each operation of a history is a step. -/
theorem steps_after (e : Engine) (history : List Operation) :
    Relation.ReflTransGen Step e (e.after history) := by
  induction history generalizing e with
  | nil => exact .refl
  | cons operation history ih =>
    exact .head (step_iff.2 ⟨operation, rfl⟩) (ih (e.perform operation))

theorem inverse_after (config : Config) (history : List Operation) :
    ((new config).after history).subscriptions.Inverse := by
  obtain ⟨calls, eq⟩ := follows_of_steps (steps_after (new config) history)
  rw [eq]
  exact Subscriptions.inverse_ofHistory calls

/-! ## What a look-up drops -/

/-- The script is in no pair of the registry. -/
def ReadsNothing (e : Engine) (id : String) : Prop :=
  e.subscriptions.dependencies id = [] ∧ ∀ attr, id ∉ e.subscriptions.subscribers attr

theorem readsNothing_iff (inverse : e.subscriptions.Inverse) :
    e.ReadsNothing id ↔ e.subscriptions.dependencies id = [] := by
  refine ⟨And.left, fun none_read => ⟨none_read, fun attr mem => ?_⟩⟩
  rw [← inverse, none_read] at mem
  exact absurd mem List.not_mem_nil

theorem registry_program? (e : Engine) (id source : String) :
    (e.program? id source).2.subscriptions =
      match Cache.answer (e.cache.fetch id source).1 with
      | .error _ | .ok (_, .replaced) => e.subscriptions.clear id
      | .ok _ => e.subscriptions := by
  unfold program?
  generalize e.cache.fetch id source = fetched
  obtain ⟨err | ⟨p, _ | _ | _⟩, cache⟩ := fetched
  all_goals rfl

/-- **When a look-up leaves a script that reads nothing**, told by the cache before it. -/
theorem readsNothing_program? (inverse : e.subscriptions.Inverse) (mirrors : e.cache.Mirrors l)
    (unmixed : ∀ held, Entries.find? l id = some held →
      sha256 held = sha256 source → held = source) :
    (e.program? id source).2.ReadsNothing id ↔
      e.ReadsNothing id ∨ ¬(Program.ofSource? source).isOk ∨
        ∃ held, Entries.find? l id = some held ∧ held ≠ source := by
  have registry := e.registry_program? id source
  rw [(mirrors.fetch unmixed).2] at registry
  have cleared : (e.program? id source).2.subscriptions = e.subscriptions.clear id →
      (e.program? id source).2.ReadsNothing id := by
    intro eq
    rw [readsNothing_iff (eq ▸ inverse.clear id), eq]
    exact Subscriptions.dependencies_clear_self _ id
  have kept : (e.program? id source).2.subscriptions = e.subscriptions →
      ((e.program? id source).2.ReadsNothing id ↔ e.ReadsNothing id) := by
    intro eq
    rw [ReadsNothing, eq]
    rfl
  rw [← Recency.outcome_eq_replaced_iff]
  cases parsed : Program.ofSource? source with
  | error err =>
    rw [parsed] at registry
    exact iff_of_true (cleared registry) (Or.inr (Or.inl Bool.false_ne_true))
  | ok p =>
    rw [parsed] at registry
    cases how : l.outcome id source with
    | replaced =>
      rw [how] at registry
      exact iff_of_true (cleared registry) (Or.inr (Or.inr rfl))
    | hit =>
      rw [how] at registry
      rw [kept registry]
      simp [Except.isOk, Except.toBool]
    | miss =>
      rw [how] at registry
      rw [kept registry]
      simp [Except.isOk, Except.toBool]

/-- An operation does not concern a script in the cache. -/
def Operation.Spares (id : String) (operation : Operation) : Prop :=
  ∀ call, operation.cacheCall? = some call → call.Spares id

/-- The scripts that the operations bring to the front of the cache. -/
def fetched (history : List Operation) : List String :=
  (cacheCalls history).filterMap Cache.Call.fetched?

/-- **A changed source drops what the script read, while the old source is held.** After a history
that mixes up no sources, a look-up of a script leaves it without reads exactly if it had none, its
source is no program, or the script is held with another source. It is held with another source if
that was its last program and fewer scripts than the cache has room for were read since. -/
theorem changed_source_drops_reads (config : Config) (history : List Operation)
    (id source : String)
    (unmixed : Cache.Unmixed (Cache.sources (cacheCalls history) ++ [source])) :
    let e := (new config).after history
    ((e.program? id source).2.ReadsNothing id ↔
      e.ReadsNothing id ∨ ¬(Program.ofSource? source).isOk ∨
        ∃ held, Entries.find? (Recency.ofCalls config.cacheCapacity (cacheCalls history)) id =
          some held ∧ held ≠ source) ∧
    ∀ before operation since old, history = before ++ operation :: since →
      operation.cacheCall? = some (.fetch id old) → (Program.ofSource? old).isOk → old ≠ source →
      (∀ later ∈ since, later.Spares id) →
      (config.cacheCapacity = 0 ∨ (fetched since).toFinset.card < config.cacheCapacity) →
      (e.program? id source).2.ReadsNothing id := by
  intro e
  have mirrors : e.cache.Mirrors (Recency.ofCalls config.cacheCapacity (cacheCalls history)) := by
    rw [cache_after]
    exact Cache.mirrors_ofCalls _ _ (unmixed.of_subset (List.subset_append_left ..))
  have drops := readsNothing_program? (inverse_after config history) mirrors
    (Cache.held_eq_of_unmixed unmixed id)
  refine ⟨drops, fun before operation since old eq asked parsed changed spares few => ?_⟩
  refine drops.2 (Or.inr (Or.inr ⟨old, ?_, changed⟩))
  obtain ⟨p, parsed⟩ : ∃ p, Program.ofSource? old = .ok p := by
    cases h : Program.ofSource? old with
    | ok p => exact ⟨p, rfl⟩
    | error err => rw [h] at parsed; cases parsed
  have calls : cacheCalls history = cacheCalls before ++ .fetch id old :: cacheCalls since := by
    rw [eq, cacheCalls, List.filterMap_append, List.filterMap_cons_some asked]
    rfl
  rw [calls]
  refine Recency.find?_ofCalls_of_few parsed (fun call mem => ?_) few
  obtain ⟨later, mem, made⟩ := List.mem_filterMap.1 mem
  exact spares later mem call made

/-- A script that reads an attribute has run, and then another script has been asked for. -/
def overtaken : List Operation :=
  [.runScript { rewritten with source := "subscribe(\"hp\")" } {}, .program "b" "1"]

theorem unmixed_overtaken :
    Cache.Unmixed (Cache.sources (cacheCalls overtaken) ++ [rewritten.source]) := by
  decide +kernel

theorem spares_overtaken : ∀ later ∈ [Operation.program "b" "1"], later.Spares "a" := by
  intro later mem call made
  obtain rfl := List.mem_singleton.1 mem
  obtain rfl := Option.some.inj made
  exact (by decide : "b" ≠ "a")

/-- With room for two scripts, the source that has changed is noticed. -/
theorem changed_source_drops_reads_overtaken :
    ((new { cacheCapacity := 2 }).after overtaken).subscriptions.dependencies "a" = ["hp"] ∧
      (((new { cacheCapacity := 2 }).after overtaken).program? "a"
        rewritten.source).2.ReadsNothing "a" := by
  refine ⟨by decide +kernel, ?_⟩
  have drops := changed_source_drops_reads { cacheCapacity := 2 } overtaken "a" rewritten.source
    unmixed_overtaken
  exact drops.2 [] _ [.program "b" "1"] _ rfl rfl (by decide +kernel) (by decide)
    spares_overtaken (Or.inr (by decide))

/-- With room for one script only, the old source has been forgotten, and the script goes on reading
what it used to read, although its source has changed since its last program. -/
theorem exists_reads_kept :
    ¬∀ (config : Config) (before since : List Operation) (operation : Operation)
      (id old source : String), operation.cacheCall? = some (.fetch id old) →
      (Program.ofSource? old).isOk → old ≠ source → (∀ later ∈ since, later.Spares id) →
      let e := (new config).after (before ++ operation :: since)
      (e.program? id source).2.ReadsNothing id := by
  intro drops
  have dropped : (((new { cacheCapacity := 1 }).after overtaken).program? "a"
      rewritten.source).2.ReadsNothing "a" :=
    drops { cacheCapacity := 1 } [] [.program "b" "1"] _ "a" _ rewritten.source rfl
      (by decide +kernel) (by decide) spares_overtaken
  have kept : (((new { cacheCapacity := 1 }).after overtaken).program? "a"
      rewritten.source).2.subscriptions.dependencies "a" = ["hp"] := by
    decide +kernel
  rw [dropped.1] at kept
  nomatch kept

end Engine

end SheetScript
