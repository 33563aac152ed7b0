import SheetScript.Proofs.Cascade.Formulas
import SheetScript.Proofs.Cascade.Rounds
import SheetScript.Proofs.Engine.History
import SheetScript.Proofs.Run.Staging

/-!
# Scripts that fail

A stored script stages what it writes, and so its sheet stays as it is while it runs. When it fails,
nothing is committed: the cascade goes on as if the script had not run, but for the report, the
limit of runs, what the engine remembers and the draws that have been made.

* `Engine.runScript_staging` and `Engine.runEvent_staging`: the sheet of a run stays as it is.
* `Cascade.Twin` relates cascades that differ in what their engines remember. They do the same
  (`Twin.evaluate`, `Twin.recordAll`).
* `Cascade.twin_record_of_failure`: a script that fails leaves a twin.
* `Cascade.sheet_runRound_of_failure`: in a round it takes the place of one run.
-/

namespace SheetScript

open Relation

/-! ## The sheet of a run -/

section

variable {sheet : Sheet}

theorem Context.Staging.orScript {c : Context} (h : c.Staging sheet) (id : String) :
    (c.orScript id).Staging sheet := by
  unfold Context.orScript
  split
  · exact h
  · exact h

namespace Engine

theorem LeftBy.staging {start : World} {ran : Ran} (h : LeftBy start ran)
    (staging : start.context.Staging sheet) : ran.2.1.Staging sheet := by
  obtain ⟨w, path, -, left⟩ := h
  rw [left]
  exact (World.staging_of_changes staging path).2

/-- The sheet stays as it is while a stored script runs. -/
theorem runScript_staging (e : Engine) (script : Script) {c : Context} (h : c.Staging sheet) :
    (e.runScript script c).2.1.Staging sheet := by
  obtain ⟨start, s, rfl | rfl, -, left⟩ := e.runScript_leftBy script c
  · exact left.staging h
  · exact left.staging (h.orScript script.id)

/-- The sheet stays as it is while an event of a stored script is handled. -/
theorem runEvent_staging (e : Engine) (script : Script) (event : String) (args : List Value)
    {c : Context} (h : c.Staging sheet) : (e.runEvent script event args c).2.1.Staging sheet := by
  obtain ⟨start, s, rfl | rfl, -, left⟩ := e.runEvent_leftBy script event args c
  · exact left.staging h
  · exact left.staging (h.orScript script.id)

end Engine

end

namespace Cascade

variable {c d : Cascade} {script : Script}

theorem staging_contextOf (c : Cascade) (script : Script) :
    (c.contextOf script).Staging c.sheet :=
  foldl_addChart_cases (P := Context.Staging c.sheet) (fun _ _ h => h) c.charts _
    (Context.staging_install _ _)

/-! ## Twins -/

/-- Two cascades differ in what their engines remember only, and in the ids of reports to come. -/
structure Twin (c d : Cascade) : Prop where
  frame : c.SameFrame d
  sheet : c.sheet = d.sheet
  draws : c.draws = d.draws
  wellFormed : c.WellFormed
  wellFormed' : d.WellFormed

theorem Twin.contextOf (h : Twin c d) (script : Script) :
    c.contextOf script = d.contextOf script := by
  unfold Cascade.contextOf
  rw [h.frame.charts, h.sheet, h.draws]

/-- A script does the same in both. -/
theorem Twin.evaluate (h : Twin c d) (mem : script ∈ c.members) :
    (c.evaluate script).1 = (d.evaluate script).1 ∧
      (c.evaluate script).2.1 = (d.evaluate script).2.1 ∧
      c.drawsAfter script = d.drawsAfter script := by
  have mem' : script ∈ d.members := h.frame.members_eq ▸ mem
  obtain ⟨result, context, -⟩ := Engine.runScript_alike (c.contextOf_own script) h.frame.config
    (h.wellFormed.faithful script mem) (h.wellFormed'.faithful script mem')
  unfold Cascade.evaluate drawsAfter
  dsimp only
  rw [← h.contextOf script]
  exact ⟨result, congrArg Context.writes context, congrArg Context.draws context⟩

theorem Twin.record (h : Twin c d) (mem : script ∈ c.members) (report report' : CascadeReport) :
    Twin (c.record script report).2.2 (d.record script report').2.2 := by
  have mem' : script ∈ d.members := h.frame.members_eq ▸ mem
  obtain ⟨result, writes, draws⟩ := h.evaluate mem
  refine ⟨(c.sameFrame_record script report).symm.trans
    (h.frame.trans (d.sameFrame_record script report')), ?_, ?_, h.wellFormed.record mem report,
    h.wellFormed'.record mem' report'⟩
  rcases c.record_cases script report with ⟨ok, _, eq⟩ | ⟨failed, _, _, -, eq⟩
  · rcases d.record_cases script report' with ⟨-, _, eq'⟩ | ⟨failed', -⟩
    · rw [eq, eq']
      dsimp only
      rw [sheetAfter, sheetAfter, h.sheet, result, writes]
    · exact absurd (result ▸ ok) failed'
  · rcases d.record_cases script report' with ⟨ok', -⟩ | ⟨-, _, _, -, eq'⟩
    · exact absurd (result.symm ▸ ok') failed
    · rw [eq, eq']
      exact h.sheet
  · rw [record_draws, record_draws, draws]

theorem Twin.recordAll (h : Twin c d) {scripts : List Script}
    (mem : ∀ script ∈ scripts, script ∈ c.members) (report report' : CascadeReport) :
    Twin (c.recordAll scripts report).2 (d.recordAll scripts report').2 := by
  induction scripts generalizing c d report report' with
  | nil => exact h
  | cons script rest ih =>
    refine ih (h.record (mem _ List.mem_cons_self) report report') (fun s hs => ?_) _ _
    rw [← (c.sameFrame_record script report).members_eq]
    exact mem s (List.mem_cons_of_mem _ hs)

/-! ## A failure -/

/-- A script that fails has one report, and leaves the sheet as it is. -/
theorem record_of_failure (failed : (c.evaluate script).1.failure ≠ none) (report : CascadeReport) :
    (c.record script report).2.2.sheet = c.sheet ∧ (c.record script report).1 = [] ∧
      ∃ failure, failure.scriptId = script.id ∧ (c.record script report).2.1 =
        { report with failures := report.failures ++ [failure] } := by
  rcases c.record_cases script report with ⟨ok, -⟩ | ⟨-, failure, _, id, eq⟩
  · exact absurd ok failed
  · rw [eq]
    exact ⟨rfl, rfl, failure, id, rfl⟩

/-- The cascade before a script runs, but for the draws that the run makes. -/
def drawn (c : Cascade) (script : Script) : Cascade := { c with draws := c.drawsAfter script }

theorem sameFrame_drawn (c : Cascade) (script : Script) : SameFrame c (c.drawn script) :=
  ⟨rfl, rfl, rfl, .refl _⟩

/-- A script that fails leaves a twin. -/
theorem twin_record_of_failure (wf : c.WellFormed) (mem : script ∈ c.members)
    (failed : (c.evaluate script).1.failure ≠ none) (report : CascadeReport) :
    Twin (c.record script report).2.2 (c.drawn script) where
  frame := (c.sameFrame_record script report).symm.trans (c.sameFrame_drawn script)
  sheet := (record_of_failure failed report).1
  draws := c.record_draws script report
  wellFormed := wf.record mem report
  wellFormed' := wf.withDraws _

/-- After a script that fails, the others go on as if it had not run. -/
theorem twin_recordAll_of_failure (wf : c.WellFormed) (mem : script ∈ c.members)
    (failed : (c.evaluate script).1.failure ≠ none) {rest : List Script}
    (rest_mem : ∀ s ∈ rest, s ∈ c.members) (report report' : CascadeReport) :
    Twin (c.recordAll (script :: rest) report).2 ((c.drawn script).recordAll rest report').2 := by
  rw [recordAll_cons]
  refine (twin_record_of_failure wf mem failed report).recordAll (fun s hs => ?_) _ _
  rw [← (c.sameFrame_record script report).members_eq]
  exact rest_mem s hs

/-! ## A round -/

theorem Progress.foldl_step_cascade (q : Progress) (scripts : List Script) :
    (scripts.foldl Progress.step q).cascade = (q.cascade.recordAll scripts q.report).2 := by
  induction scripts generalizing q with
  | nil => rfl
  | cons script rest ih => exact ih (q.step script)

/-- A round runs as many scripts as there is room for. -/
theorem runRound_cascade (q : Progress) (scripts : List Script) :
    (runRound q scripts).cascade = (q.cascade.recordAll (scripts.take q.room) q.report).2 := by
  rw [← Progress.foldl_step_cascade, Progress.runRound_eq]
  split_ifs with fits
  · rw [List.take_of_length_le fits]
  · rfl

/-- A script that fails takes the place of one run; the others go on as if it had not run. -/
theorem sheet_runRound_of_failure {q : Progress} (wf : q.cascade.WellFormed)
    (mem : script ∈ q.cascade.members) (failed : (q.cascade.evaluate script).1.failure ≠ none)
    {rest : List Script} (rest_mem : ∀ s ∈ rest, s ∈ q.cascade.members) (room : 0 < q.room) :
    (runRound q (script :: rest)).cascade.sheet =
      ((q.cascade.drawn script).recordAll (rest.take (q.room - 1)) q.report).2.sheet := by
  obtain ⟨left, eq⟩ := Nat.exists_eq_add_of_lt room
  rw [Nat.zero_add] at eq
  rw [runRound_cascade, eq, List.take_succ_cons, Nat.add_sub_cancel]
  exact (twin_recordAll_of_failure wf mem failed
    (fun s hs => rest_mem s (List.mem_of_mem_take hs)) _ _).sheet

end Cascade

end SheetScript
