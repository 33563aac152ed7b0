import SheetScript.Cascade.Basic
import SheetScript.Proofs.Engine.Script
import SheetScript.Proofs.Sheet.Frame

/-!
# What a run of a script leaves alone

Running a script of a cascade changes values of the sheet, the pairs of that script in the registry
and what the cache holds; the scripts, the charts, the options and the frame of the sheet stay.

* `Cascade.record_cases` tells apart what `Cascade.record` does for a script that succeeds and for
  one that fails.
* `Cascade.SameFrame` relates the cascades before and after any number of runs.
* `Cascade.WellFormed` is kept by every operation on a cascade.
-/

namespace SheetScript

/-- The ids of the scripts that ran. -/
def CascadeReport.ids (r : CascadeReport) : List String :=
  r.recomputed ++ r.failures.map (·.scriptId)

theorem CascadeReport.length_ids (r : CascadeReport) : r.ids.length = r.runs := by
  rw [ids, List.length_append, List.length_map, runs]

namespace Cascade

variable {c c' c'' : Cascade}

/-! ## The context of a script -/

theorem foldl_addChart_cases {P : Context → Prop}
    (h : ∀ c chart, P c → P (Context.addChart c chart)) (charts : List Chart) (c : Context)
    (start : P c) : P (charts.foldl Context.addChart c) := by
  induction charts generalizing c with
  | nil => exact start
  | cons chart rest ih => exact ih _ (h c chart start)

/-- A script runs in its own name, with a clean sheet and nothing else of the host. -/
theorem contextOf_start (c : Cascade) (script : Script) :
    (c.contextOf script).scriptId = some script.id ∧ (c.contextOf script).natives = [] ∧
      (c.contextOf script).objects = [] ∧ (c.contextOf script).writes = [] :=
  foldl_addChart_cases
    (P := fun c => c.scriptId = some script.id ∧ c.natives = [] ∧ c.objects = [] ∧ c.writes = [])
    (fun _ _ h => h) c.charts _ ⟨rfl, rfl, rfl, rfl⟩

theorem contextOf_own (c : Cascade) (script : Script) :
    (c.contextOf script).scriptId = some script.id := (c.contextOf_start script).1

theorem contextOf_draws (c : Cascade) (script : Script) :
    (c.contextOf script).draws = c.draws :=
  foldl_addChart_cases (P := fun context => context.draws = c.draws) (fun _ _ h => h) c.charts _ rfl

/-! ## One run -/

/-- The engine after a run. -/
def engineAfter (c : Cascade) (script : Script) : Engine :=
  (c.engine.runScript script (c.contextOf script)).2.2

/-- The source of draws after a run. -/
def drawsAfter (c : Cascade) (script : Script) : Draws :=
  (c.engine.runScript script (c.contextOf script)).2.1.draws

theorem evaluate_cascade (c : Cascade) (script : Script) :
    (c.evaluate script).2.2 =
      { c with engine := c.engineAfter script, draws := c.drawsAfter script } := rfl

/-- A script that notes no attribute as written stages nothing. -/
theorem evaluate_writes_eq_nil {script : Script}
    (h : (c.evaluate script).1.effects.modified = []) : (c.evaluate script).2.1 = [] := by
  obtain ⟨own, natives, objects, writes⟩ := c.contextOf_start script
  refine List.eq_nil_iff_forall_not_mem.2 fun write staged => ?_
  have noted := Engine.runScript_writes (e := c.engine) own natives objects writes
    (List.mem_map.2 ⟨write, staged, rfl⟩)
  change write.1 ∈ (c.evaluate script).1.effects.modified at noted
  rw [h] at noted
  exact absurd noted List.not_mem_nil

/-- The sheet after a run that succeeded. -/
def sheetAfter (c : Cascade) (script : Script) : Sheet :=
  (settle c.sheet script (c.evaluate script).1 (c.evaluate script).2.1).2

/-- The names of the other attributes that a run writes. -/
def touchedBy (c : Cascade) (script : Script) : List String :=
  touchedNames (c.sheet.commit (c.evaluate script).2.1) script
    (c.evaluate script).1.effects.modified

/-- **What recording a run does**, for a script that succeeds and for one that fails. -/
theorem record_cases (c : Cascade) (script : Script) (report : CascadeReport) :
    ((c.evaluate script).1.failure = none ∧ ∃ changed, c.record script report =
      (c.touchedBy script,
        { report with recomputed := report.recomputed ++ [script.id], changed := changed },
        { c with
          engine := c.engineAfter script
          draws := c.drawsAfter script
          sheet := c.sheetAfter script })) ∨
    ((c.evaluate script).1.failure ≠ none ∧ ∃ failure ids, failure.scriptId = script.id ∧
      c.record script report =
        ([], { report with failures := report.failures ++ [failure] },
          { c with
            engine := c.engineAfter script
            draws := c.drawsAfter script
            ids := ids })) := by
  unfold record run touchedBy sheetAfter
  rcases run : c.evaluate script with ⟨result, writes, after⟩
  obtain rfl : after = { c with engine := c.engineAfter script, draws := c.drawsAfter script } := by
    rw [← evaluate_cascade, run]
  dsimp only
  cases result.failure with
  | none => exact Or.inl ⟨rfl, _, rfl⟩
  | some f => exact Or.inr ⟨Option.some_ne_none f, _, _, rfl, rfl⟩

theorem record_ids (c : Cascade) (script : Script) (report : CascadeReport) :
    (c.record script report).2.1.ids.Perm (script.id :: report.ids) := by
  rcases c.record_cases script report with ⟨-, _, eq⟩ | ⟨-, failure, _, id, eq⟩
  · rw [eq]
    simp only [CascadeReport.ids, List.append_assoc, List.singleton_append]
    exact List.perm_middle
  · rw [eq]
    simp only [CascadeReport.ids, List.map_append, List.map_cons, List.map_nil, id]
    rw [← List.append_assoc]
    exact List.perm_append_singleton _ _

theorem sameFrame_sheetAfter (c : Cascade) (script : Script) :
    c.sheet.SameFrame (c.sheetAfter script) := by
  unfold sheetAfter settle storeValue
  dsimp only
  have committed := c.sheet.sameFrame_commit (c.evaluate script).2.1
  cases script.entityId with
  | none => exact committed
  | some id => exact committed.trans (Sheet.sameFrame_setById _ _ _)

theorem record_engine (c : Cascade) (script : Script) (report : CascadeReport) :
    (c.record script report).2.2.engine = c.engineAfter script := by
  rcases c.record_cases script report with ⟨-, _, eq⟩ | ⟨-, _, _, -, eq⟩
  · rw [eq]
  · rw [eq]

theorem record_draws (c : Cascade) (script : Script) (report : CascadeReport) :
    (c.record script report).2.2.draws = c.drawsAfter script := by
  rcases c.record_cases script report with ⟨-, _, eq⟩ | ⟨-, _, _, -, eq⟩
  · rw [eq]
  · rw [eq]

/-! ## What stays -/

/-- Two cascades have the same scripts, charts and options, and sheets of one frame. -/
structure SameFrame (c c' : Cascade) : Prop where
  scripts : c.scripts = c'.scripts
  charts : c.charts = c'.charts
  config : c.engine.config = c'.engine.config
  sheet : c.sheet.SameFrame c'.sheet

theorem SameFrame.refl (c : Cascade) : SameFrame c c := ⟨rfl, rfl, rfl, .refl _⟩

theorem SameFrame.symm (h : SameFrame c c') : SameFrame c' c :=
  ⟨h.scripts.symm, h.charts.symm, h.config.symm, h.sheet.symm⟩

theorem SameFrame.trans (h : SameFrame c c') (h' : SameFrame c' c'') : SameFrame c c'' :=
  ⟨h.scripts.trans h'.scripts, h.charts.trans h'.charts, h.config.trans h'.config,
    h.sheet.trans h'.sheet⟩

theorem SameFrame.maxRuns_eq (h : SameFrame c c') : c.maxRuns = c'.maxRuns := by
  rw [maxRuns, maxRuns, h.config]

theorem SameFrame.producedName?_eq (h : SameFrame c c') (script : Script) :
    producedName? c.sheet script = producedName? c'.sheet script := by
  unfold producedName?
  exact congrArg _ (funext fun id => h.sheet.nameOf?_eq id)

theorem engineAfter_config (c : Cascade) (script : Script) :
    (c.engineAfter script).config = c.engine.config :=
  Engine.runScript_config (c.contextOf_own script)

theorem sameFrame_evaluate (c : Cascade) (script : Script) :
    SameFrame c (c.evaluate script).2.2 :=
  ⟨rfl, rfl, (c.engineAfter_config script).symm, .refl _⟩

theorem sameFrame_record (c : Cascade) (script : Script) (report : CascadeReport) :
    SameFrame c (c.record script report).2.2 := by
  have config := (c.engineAfter_config script).symm
  rcases c.record_cases script report with ⟨-, _, eq⟩ | ⟨-, _, _, -, eq⟩
  · rw [eq]
    exact ⟨rfl, rfl, config, c.sameFrame_sheetAfter script⟩
  · rw [eq]
    exact ⟨rfl, rfl, config, .refl _⟩

theorem sameFrame_prime (c : Cascade) (scripts : List Script) : SameFrame c (c.prime scripts) := by
  induction scripts generalizing c with
  | nil => exact .refl c
  | cons script rest ih => exact (c.sameFrame_evaluate script).trans (ih _)

/-! ## The registry -/

/-- A run leaves the pairs of the other scripts as they are. -/
theorem engineAfter_registry (c : Cascade) (script : Script) :
    c.engine.subscriptions.AgreeApart script.id (c.engineAfter script).subscriptions :=
  Engine.runScript_registry (c.contextOf_own script)

/-! ## Invariants -/

/-- The scripts of a cascade, in the order of their ids. -/
def members (c : Cascade) : List Script := Entries.values c.scripts

/-- Each script is kept under its id, and once. -/
structure Keyed (c : Cascade) : Prop where
  sorted : Entries.Sorted c.scripts
  ids : ∀ entry ∈ c.scripts, entry.2.id = entry.1

/-- Besides, the two indices of the registry agree, and what the cache holds of a script is the
program of its source. -/
structure WellFormed (c : Cascade) : Prop extends Keyed c where
  inverse : c.engine.subscriptions.Inverse
  faithful : ∀ script ∈ c.members, c.engine.cache.Faithful script.id script.source

theorem Keyed.map_id_members (h : c.Keyed) : c.members.map (·.id) = Entries.keys c.scripts := by
  unfold members Entries.values Entries.keys
  rw [List.map_map]
  exact List.map_congr_left fun entry mem => h.ids entry mem

theorem Keyed.nodup_ids (h : c.Keyed) : (c.members.map (·.id)).Nodup := by
  rw [h.map_id_members]
  exact h.sorted.nodup

theorem Keyed.nodup_members (h : c.Keyed) : c.members.Nodup := .of_map _ h.nodup_ids

theorem Keyed.eq_of_id (h : c.Keyed) {s t : Script} (hs : s ∈ c.members) (ht : t ∈ c.members)
    (eq : s.id = t.id) : s = t := List.inj_on_of_nodup_map h.nodup_ids hs ht eq

theorem Keyed.of_scripts (h : c.Keyed) (eq : c.scripts = c'.scripts) : c'.Keyed :=
  ⟨eq ▸ h.sorted, eq ▸ h.ids⟩

theorem SameFrame.members_eq (h : SameFrame c c') : c.members = c'.members := by
  rw [members, members, h.scripts]

theorem WellFormed.of_engine (h : c.WellFormed) (scripts : c.scripts = c'.scripts)
    {script : Script} (mem : script ∈ c.members) (engine : c'.engine = c.engineAfter script) :
    c'.WellFormed where
  toKeyed := h.toKeyed.of_scripts scripts
  inverse := by
    rw [engine]
    exact Engine.runScript_inverse (c.contextOf_own script) h.inverse
  faithful := fun other other_mem => by
    have other_mem : other ∈ c.members := by rwa [members, scripts]
    rw [engine]
    refine Engine.runScript_faithful (c.contextOf_own script) (h.faithful other other_mem) ?_
    exact fun eq => congrArg _ (h.toKeyed.eq_of_id other_mem mem eq)

theorem WellFormed.evaluate (h : c.WellFormed) {script : Script} (mem : script ∈ c.members) :
    (c.evaluate script).2.2.WellFormed := h.of_engine (c := c) rfl mem rfl

theorem WellFormed.record (h : c.WellFormed) {script : Script} (mem : script ∈ c.members)
    (report : CascadeReport) : (c.record script report).2.2.WellFormed :=
  h.of_engine (c.sameFrame_record script report).scripts mem (c.record_engine script report)

theorem WellFormed.prime (h : c.WellFormed) {scripts : List Script}
    (mem : ∀ script ∈ scripts, script ∈ c.members) : (c.prime scripts).WellFormed := by
  induction scripts generalizing c with
  | nil => exact h
  | cons script rest ih =>
    exact ih (h.evaluate (mem _ List.mem_cons_self)) fun s hs => mem s (List.mem_cons_of_mem _ hs)

/-- The first script is recorded, then the others. -/
theorem recordAll_cons (c : Cascade) (script : Script) (rest : List Script)
    (report : CascadeReport) :
    c.recordAll (script :: rest) report =
      (c.record script report).2.2.recordAll rest (c.record script report).2.1 := rfl

theorem WellFormed.recordAll (h : c.WellFormed) {scripts : List Script}
    (mem : ∀ script ∈ scripts, script ∈ c.members) (report : CascadeReport) :
    (c.recordAll scripts report).2.WellFormed := by
  induction scripts generalizing c report with
  | nil => exact h
  | cons script rest ih =>
    refine ih (h.record (mem _ List.mem_cons_self) report) (fun s hs => ?_) _
    rw [← (c.sameFrame_record script report).members_eq]
    exact mem s (List.mem_cons_of_mem _ hs)

/-! ## Making a cascade -/

theorem wellFormed_new {engine : Engine} (h : engine.subscriptions.Inverse) (sheet : Sheet) :
    (new engine sheet).WellFormed where
  sorted := List.Pairwise.nil
  ids := fun _ mem => absurd mem List.not_mem_nil
  inverse := h
  faithful := fun _ mem => absurd mem List.not_mem_nil

theorem mem_members {script : Script} :
    script ∈ c.members ↔ ∃ entry ∈ c.scripts, entry.2 = script :=
  List.mem_map

theorem WellFormed.forget (h : c.WellFormed) (id : String) {scripts : Entries Script}
    (sorted : Entries.Sorted scripts) (ids : ∀ entry ∈ scripts, entry.2.id = entry.1)
    (mem : ∀ entry ∈ scripts, entry.2.id = id ∨ entry ∈ c.scripts) :
    { c with engine := c.engine.forget id, scripts := scripts }.WellFormed where
  sorted := sorted
  ids := ids
  inverse := h.inverse.clear id
  faithful := fun script script_mem => by
    obtain ⟨entry, entry_mem, rfl⟩ := mem_members.1 script_mem
    rcases mem entry entry_mem with rfl | old
    · exact Cache.faithful_invalidate _ _ _
    · exact (h.faithful _ (mem_members.2 ⟨entry, old, rfl⟩)).invalidate id

theorem WellFormed.addScript (h : c.WellFormed) (script : Script) :
    (c.addScript script).WellFormed := by
  unfold Cascade.addScript
  split_ifs
  · refine h.forget script.id (h.sorted.insert _ _) (fun entry mem => ?_) fun entry mem => ?_
    · rcases Entries.mem_of_mem_insert mem with rfl | mem
      · rfl
      · exact h.ids entry mem
    · rcases Entries.mem_of_mem_insert mem with rfl | mem
      · exact Or.inl rfl
      · exact Or.inr mem
  · exact h

theorem WellFormed.removeScript (h : c.WellFormed) (id : String) :
    (c.removeScript id).WellFormed :=
  h.forget id (h.sorted.erase id) (fun entry mem => h.ids entry (Entries.mem_of_mem_erase mem).1)
    fun _ mem => Or.inr (Entries.mem_of_mem_erase mem).1

theorem WellFormed.addChart (h : c.WellFormed) (chart : Chart) : (c.addChart chart).WellFormed :=
  { h with }

theorem WellFormed.withSheet (h : c.WellFormed) (sheet : Sheet) :
    { c with sheet := sheet }.WellFormed := { h with }

theorem WellFormed.withDraws (h : c.WellFormed) (draws : Draws) :
    { c with draws := draws }.WellFormed := { h with }

end Cascade

end SheetScript
