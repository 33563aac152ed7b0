import SheetScript.Engine.Basic
import SheetScript.Proofs.Run.Registry

/-!
# Running a stored script

What the engine does for a stored script, with the cache and the registry in view.

* `Cache.Faithful` says that what is held for a script is the program of its source. Asking for any
  script keeps it, unless two sources of one script have the same digest (`Cache.Faithful.fetch`).
* `Engine.runScript_eq` is what running a script comes to: its program runs with the pairs of the
  script dropped.
* `Engine.runScript_registry`: no other script is subscribed to anything or loses a pair.
* `Engine.runScript_alike`: what the run gives does not depend on the engine's registry, nor on its
  cache as long as it is faithful.
-/

namespace SheetScript

/-! ## The cache -/

namespace Cache

variable {c : Cache} {id source other otherSource : String}

/-- What is held for a script under the digest of a source is the program of the source. -/
def Faithful (c : Cache) (id source : String) : Prop :=
  ∀ p, Entries.find? c.programs id = some p → p.digest = sha256 source →
    Program.ofSource? source = .ok p.program

theorem faithful_of_absent (h : Entries.find? c.programs id = none) : c.Faithful id source :=
  fun p found => by simp [h] at found

theorem Faithful.of_programs {c' : Cache} (h : c.Faithful id source)
    (less : ∀ p, Entries.find? c'.programs id = some p → Entries.find? c.programs id = some p) :
    c'.Faithful id source := fun p found => h p (less p found)

theorem Faithful.invalidate (h : c.Faithful id source) (other : String) :
    (c.invalidate other).Faithful id source := h.of_programs fun p found => by
  rw [Cache.invalidate, Entries.find?_erase] at found
  split_ifs at found
  exact found

theorem faithful_invalidate (c : Cache) (id source : String) :
    (c.invalidate id).Faithful id source := faithful_of_absent (by
  rw [invalidate, Entries.find?_erase, if_pos rfl])

theorem Faithful.makeRoom (h : c.Faithful id source) : c.makeRoom.Faithful id source := by
  unfold Cache.makeRoom
  split_ifs
  · exact h
  · refine h.of_programs fun p found => ?_
    dsimp only at found
    rw [Entries.find?_filter c.programs (fun key => !List.contains _ key)] at found
    split_ifs at found
    exact found

theorem Faithful.hold (h : c.Faithful id source) {p : CachedProgram}
    (new : id = other → p.digest = sha256 source → Program.ofSource? source = .ok p.program) :
    (c.hold other p).Faithful id source := fun q found => by
  rw [Cache.hold, Entries.find?_insert] at found
  split_ifs at found with same
  · obtain rfl := Option.some.inj found
    exact new same
  · exact h q found

theorem Faithful.read (h : c.Faithful id source) (held : Bool)
    (same : id = other → sha256 otherSource = sha256 source → source = otherSource) :
    (c.read other otherSource (sha256 otherSource) held).2.Faithful id source := by
  unfold Cache.read
  dsimp only
  have ticked : Faithful { c with clock := c.clock + 1, misses := c.misses + 1 } id source := h
  cases parsed : Program.ofSource? otherSource with
  | error e =>
    dsimp only
    split_ifs
    · exact ticked.invalidate other
    · exact ticked
  | ok program =>
    have new : id = other → sha256 otherSource = sha256 source →
        Program.ofSource? source = .ok program := fun eq hash => by rw [same eq hash, parsed]
    dsimp only
    refine Faithful.hold ?_ new
    split_ifs
    · exact ticked
    · exact ticked.makeRoom

/-- Asking for scripts keeps the cache faithful, as long as no other source of the script has the
digest of this one. -/
theorem Faithful.fetch (h : c.Faithful id source)
    (same : id = other → sha256 otherSource = sha256 source → source = otherSource) :
    (c.fetch other otherSource).2.Faithful id source := by
  unfold Cache.fetch
  dsimp only
  cases found : Entries.find? c.programs other with
  | none => exact h.read false same
  | some p =>
    dsimp only
    split_ifs
    · have ticked : Faithful { c with clock := c.clock + 1, hits := c.hits + 1 } id source := h
      exact ticked.hold fun eq hash => h p (eq ▸ found) hash
    · exact h.read true same

/-- A faithful cache gives the program of the source. -/
theorem Faithful.fetch_program (h : c.Faithful id source) :
    (c.fetch id source).1.map (fun found => found.1.program) = Program.ofSource? source := by
  have read : ∀ held, (c.read id source (sha256 source) held).1.map
      (fun found => found.1.program) = Program.ofSource? source := fun held => by
    unfold Cache.read
    dsimp only
    cases Program.ofSource? source with
    | ok program => rfl
    | error e => rfl
  unfold Cache.fetch
  dsimp only
  cases found : Entries.find? c.programs id with
  | none => exact read false
  | some p =>
    dsimp only
    split_ifs with digest
    · exact (h p found (beq_iff_eq.1 digest)).symm
    · exact read true

end Cache

/-! ## A run -/

theorem Context.orScript_of_own {c : Context} {id : String} (own : c.scriptId = some id) :
    c.orScript id = c := by
  rw [orScript, own]

namespace Engine

variable {e e' : Engine} {script : Script} {c : Context}

/-- The engine that a script runs in: the script has been asked for, and its pairs are dropped. -/
def ready (e : Engine) (script : Script) : Engine :=
  { e with
    cache := (e.cache.fetch script.id script.source).2
    subscriptions := e.subscriptions.clear script.id }

/-- **What running a script comes to.** -/
theorem runScript_eq (e : Engine) (script : Script) (c : Context) (enabled : script.enabled) :
    e.runScript script c =
      match (e.cache.fetch script.id script.source).1 with
      | .error err => (rejected err, c.orScript script.id, e.ready script)
      | .ok (p, _) => (e.ready script).run p.program (c.orScript script.id) := by
  unfold runScript program? ready clearSubscriptions
  rw [if_neg (by simp [enabled])]
  dsimp only
  generalize e.cache.fetch script.id script.source = fetched
  obtain ⟨outcome, cache⟩ := fetched
  cases outcome with
  | error err => rfl
  | ok found =>
    obtain ⟨p, how⟩ := found
    cases how with
    | hit => rfl
    | miss => rfl
    | replaced => simp only [Subscriptions.clear_clear]

theorem runScript_disabled (e : Engine) (c : Context) (disabled : script.enabled = false) :
    e.runScript script c = ({}, c, e) := by
  rw [runScript, if_pos (by simp [disabled])]

/-- Running a script changes neither the options nor what is held of the other scripts, and what it
comes to in the registry is told by the names that it registers. -/
theorem runScript_cases (e : Engine) (script : Script) (c : Context)
    (own : c.scriptId = some script.id) :
    e.runScript script c = ({}, c, e) ∨
      (e.runScript script c).2.2.config = e.config ∧
      (e.runScript script c).2.2.cache = (e.cache.fetch script.id script.source).2 ∧
      ∃ names, (e.runScript script c).2.2.subscriptions =
        (e.subscriptions.clear script.id).registerFor script.id names := by
  cases enabled : script.enabled with
  | false => exact Or.inl (runScript_disabled e c enabled)
  | true =>
    refine Or.inr ?_
    rw [runScript_eq e script c enabled, Context.orScript_of_own own]
    cases (e.cache.fetch script.id script.source).1 with
    | error err => exact ⟨rfl, rfl, [], rfl⟩
    | ok found => exact ⟨rfl, rfl, Program.run_subscriptions _ _ ⟨c, _⟩ own⟩

variable (own : c.scriptId = some script.id)
include own

theorem runScript_config : (e.runScript script c).2.2.config = e.config := by
  rcases runScript_cases e script c own with eq | ⟨config, -⟩
  · rw [eq]
  · exact config

/-- Running a script leaves the pairs of the other scripts as they are. -/
theorem runScript_registry :
    e.subscriptions.AgreeApart script.id (e.runScript script c).2.2.subscriptions := by
  rcases runScript_cases e script c own with eq | ⟨-, -, names, registered⟩
  · rw [eq]
    exact .refl _ _
  · rw [registered]
    exact (Subscriptions.agreeApart_clear _ _).trans (Subscriptions.agreeApart_registerFor _ _ _)

theorem runScript_inverse (h : e.subscriptions.Inverse) :
    (e.runScript script c).2.2.subscriptions.Inverse := by
  rcases runScript_cases e script c own with eq | ⟨-, -, names, registered⟩
  · rwa [eq]
  · rw [registered]
    exact (h.clear _).registerFor _ _

theorem runScript_faithful {id source : String} (h : e.cache.Faithful id source)
    (same : id = script.id → source = script.source) :
    (e.runScript script c).2.2.cache.Faithful id source := by
  rcases runScript_cases e script c own with eq | ⟨-, cache, -⟩
  · rwa [eq]
  · rw [cache]
    exact h.fetch fun eq _ => same eq

/-- What a script stages for a sheet, when nothing else is lent to it, is noted as written. -/
theorem runScript_writes (natives : c.natives = []) (objects : c.objects = [])
    (writes : c.writes = []) {id : String}
    (staged : id ∈ Entries.keys (e.runScript script c).2.1.writes) :
    id ∈ (e.runScript script c).1.effects.modified := by
  have start : ∀ id, id ∉ Entries.keys c.writes := fun id => by
    rw [writes]
    exact List.not_mem_nil
  cases enabled : script.enabled with
  | false =>
    rw [runScript_disabled e c enabled] at staged
    exact absurd staged (start id)
  | true =>
    rw [runScript_eq e script c enabled, Context.orScript_of_own own] at staged ⊢
    cases fetched : (e.cache.fetch script.id script.source).1 with
    | error err =>
      rw [fetched] at staged
      exact absurd staged (start id)
    | ok found =>
      rw [fetched] at staged
      exact Program.run_writes _ _ ⟨c, _⟩
        ⟨natives, objects, fun id staged => absurd staged (start id)⟩ staged

/-- With a faithful cache, running a script comes to running the program of its source. -/
theorem runScript_eq_of_faithful (faithful : e.cache.Faithful script.id script.source)
    (enabled : script.enabled) :
    e.runScript script c =
      match Program.ofSource? script.source with
      | .error err => (rejected err, c, e.ready script)
      | .ok p => (e.ready script).run p c := by
  rw [runScript_eq e script c enabled, Context.orScript_of_own own, ← faithful.fetch_program]
  cases (e.cache.fetch script.id script.source).1 with
  | error err => rfl
  | ok found => rfl

/-- **What a script does in a context depends on the options alone**, as long as the cache is
faithful: neither the registry nor the rest of the cache matters. -/
theorem runScript_alike (config : e.config = e'.config)
    (faithful : e.cache.Faithful script.id script.source)
    (faithful' : e'.cache.Faithful script.id script.source) :
    (e.runScript script c).1 = (e'.runScript script c).1 ∧
      (e.runScript script c).2.1 = (e'.runScript script c).2.1 ∧
      (script.enabled → (e.runScript script c).2.2.subscriptions.dependencies script.id =
        (e'.runScript script c).2.2.subscriptions.dependencies script.id) := by
  cases enabled : script.enabled with
  | false =>
    rw [runScript_disabled e c enabled, runScript_disabled e' c enabled]
    exact ⟨rfl, rfl, fun h => by simp at h⟩
  | true =>
    rw [runScript_eq_of_faithful own faithful enabled,
      runScript_eq_of_faithful own faithful' enabled]
    cases Program.ofSource? script.source with
    | error err =>
      refine ⟨rfl, rfl, fun _ => ?_⟩
      simp [ready, Subscriptions.dependencies_clear_self]
    | ok p =>
      dsimp only [run, inWorld]
      rw [show (e'.ready script).config = (e.ready script).config from config.symm]
      obtain ⟨result, context, names, registered, registered'⟩ :=
        p.run_twin (e.ready script).config.limits c (e.ready script).subscriptions
          (e'.ready script).subscriptions own
      refine ⟨result, context, fun _ => ?_⟩
      rw [registered, registered', Subscriptions.dependencies_registerFor_self,
        Subscriptions.dependencies_registerFor_self]
      simp [ready, Subscriptions.dependencies_clear_self]

end Engine

end SheetScript
