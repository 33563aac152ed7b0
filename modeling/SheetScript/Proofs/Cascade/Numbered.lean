import SheetScript.Proofs.Cascade.Rounds
import SheetScript.Proofs.Record.Ids

/-!
# The numbers of failures

A cascade has one source of ids. A script that fails asks it for one, and its report is noted among
the failures; nothing else asks. So the failures are numbered as they are noted, on and on from one
call to the next, and whoever keeps the reports of a cascade by their ids keeps them all.

* `ErrorReport.Numbered`: reports have the ids that a source hands out next.
* `Cascade.Notes`: between two moments of a cascade, failures are noted and numbered.
* `Cascade.HasReported`: the reports that a cascade has given, whatever was done to it. They are
  numbered from 1 on (`Cascade.HasReported.numbered_from_one`).
-/

namespace SheetScript

/-! ## Numbered reports -/

/-- The reports have the ids that a source hands out next, and it becomes the other source. -/
def ErrorReport.Numbered (s : IdSource) (reports : List ErrorReport) (t : IdSource) : Prop :=
  s.handOut (reports.map fun _ => stem) = (reports.map (·.id), t)

namespace ErrorReport.Numbered

variable {s t u : IdSource} {reports later : List ErrorReport}

theorem nil (s : IdSource) : Numbered s [] s := rfl

theorem append (h : Numbered s reports t) (h' : Numbered t later u) :
    Numbered s (reports ++ later) u := by
  unfold Numbered at h h' ⊢
  rw [List.map_append, IdSource.handOut_append, h, h', List.map_append]

/-- No two of the reports have one id. -/
theorem nodup (h : Numbered s reports t) : (reports.map (·.id)).Nodup := by
  have nodup := s.nodup_handOut (reports.map fun _ => stem)
  rwa [h] at nodup

/-- The numbers go on from where the source stands. -/
theorem ids_eq (h : Numbered s reports t) :
    reports.map (·.id) = (List.range reports.length).map fun i =>
      IdSource.idText stem (s.count stem + (i + 1)) := by
  have ids := s.handOut_eq (reports.map fun _ => stem)
  rw [h] at ids
  refine ids.trans (List.ext_getElem (by simp) fun i inside _ => ?_)
  have lt : i < reports.length := by simpa using inside
  simp [List.map_const', List.take_replicate, Nat.min_eq_left (Nat.succ_le_of_lt lt)]

end ErrorReport.Numbered

namespace Cascade

variable {c c' c'' : Cascade} {r r' r'' : CascadeReport} {reports : List ErrorReport}

/-! ## What is noted -/

/-- Between two moments of a cascade failures are noted, and their reports are numbered. -/
def Notes (c : Cascade) (r : CascadeReport) (c' : Cascade) (r' : CascadeReport) : Prop :=
  ∃ reports, r'.failures = r.failures ++ reports ∧ ErrorReport.Numbered c.ids reports c'.ids

theorem Notes.refl (c : Cascade) (r : CascadeReport) : Notes c r c r :=
  ⟨[], (List.append_nil _).symm, .nil _⟩

theorem Notes.trans (h : Notes c r c' r') (h' : Notes c' r' c'' r'') : Notes c r c'' r'' := by
  obtain ⟨reports, failures, numbered⟩ := h
  obtain ⟨later, failures', numbered'⟩ := h'
  exact ⟨reports ++ later, by rw [failures', failures, List.append_assoc],
    numbered.append numbered'⟩

/-- From no report on, what is noted is all that there is. -/
theorem Notes.numbered (h : Notes c {} c' r') : ErrorReport.Numbered c.ids r'.failures c'.ids := by
  obtain ⟨reports, failures, numbered⟩ := h
  rw [failures]
  exact numbered

theorem notes_record (c : Cascade) (script : Script) (r : CascadeReport) :
    Notes c r (c.record script r).2.2 (c.record script r).2.1 := by
  unfold record run
  rcases run : c.evaluate script with ⟨result, writes, after⟩
  obtain rfl : after = { c with engine := c.engineAfter script, draws := c.drawsAfter script } := by
    rw [← evaluate_cascade, run]
  dsimp only
  cases result.failure with
  | none => exact ⟨[], (List.append_nil _).symm, .nil _⟩
  | some f => exact ⟨[_], rfl, rfl⟩

theorem notes_recordAll (c : Cascade) (scripts : List Script) (r : CascadeReport) :
    Notes c r (c.recordAll scripts r).2 (c.recordAll scripts r).1 := by
  induction scripts generalizing c r with
  | nil => exact .refl c r
  | cons script rest ih => exact (c.notes_record script r).trans (ih _ _)

theorem ids_prime (c : Cascade) (scripts : List Script) : (c.prime scripts).ids = c.ids := by
  induction scripts generalizing c with
  | nil => rfl
  | cons script rest ih => exact ih _

/-- The first pass reports nothing, and the second all failures. -/
theorem numbered_recomputeAll (c : Cascade) :
    ErrorReport.Numbered c.ids c.recomputeAll.1.failures c.recomputeAll.2.ids := by
  rw [← c.ids_prime c.members]
  exact (notes_recordAll _ _ {}).numbered

theorem Progress.notes_runRound (p : Progress) (scripts : List Script) :
    Notes p.cascade p.report (runRound p scripts).cascade (runRound p scripts).report := by
  induction scripts generalizing p with
  | nil => exact .refl _ _
  | cons script rest ih =>
    rw [runRound]
    split
    · exact ⟨[], (List.append_nil _).symm, .nil _⟩
    · exact (p.cascade.notes_record script p.report).trans (ih _)

theorem Progress.notes_runRounds (room : Nat) (p : Progress) :
    Notes p.cascade p.report (runRounds room p).cascade (runRounds room p).report := by
  induction room generalizing p with
  | zero => exact .refl _ _
  | succ room ih =>
    rw [runRounds]
    split
    · exact .refl _ _
    · exact (notes_runRound p.opened p.due).trans (ih _)

theorem numbered_attributesChanged (c : Cascade) (names : List String) :
    ErrorReport.Numbered c.ids (c.attributesChanged names).1.failures
      (c.attributesChanged names).2.ids :=
  (Progress.notes_runRounds _ (.start c names)).numbered

/-! ## All reports of a cascade -/

/-- A cascade has given these reports since it was made, whatever was done to it. -/
inductive HasReported : Cascade → List ErrorReport → Prop
  | new (engine : Engine) (sheet : Sheet) : HasReported (new engine sheet) []
  | addScript {c : Cascade} {reports : List ErrorReport} (h : c.HasReported reports)
      (script : Script) : HasReported (c.addScript script) reports
  | removeScript {c : Cascade} {reports : List ErrorReport} (h : c.HasReported reports)
      (id : String) : HasReported (c.removeScript id) reports
  | addChart {c : Cascade} {reports : List ErrorReport} (h : c.HasReported reports)
      (chart : Chart) : HasReported (c.addChart chart) reports
  | withSheet {c : Cascade} {reports : List ErrorReport} (h : c.HasReported reports)
      (sheet : Sheet) : HasReported { c with sheet := sheet } reports
  | withDraws {c : Cascade} {reports : List ErrorReport} (h : c.HasReported reports)
      (draws : Draws) : HasReported { c with draws := draws } reports
  | recomputeAll {c : Cascade} {reports : List ErrorReport} (h : c.HasReported reports) :
      HasReported c.recomputeAll.2 (reports ++ c.recomputeAll.1.failures)
  | attributesChanged {c : Cascade} {reports : List ErrorReport} (h : c.HasReported reports)
      (names : List String) : HasReported (c.attributesChanged names).2
        (reports ++ (c.attributesChanged names).1.failures)

theorem ids_addScript (c : Cascade) (script : Script) : (c.addScript script).ids = c.ids := by
  unfold addScript
  split
  · rfl
  · rfl

namespace HasReported

/-- The reports of a cascade have the ids that a fresh source hands out. -/
theorem numbered (h : c.HasReported reports) : ErrorReport.Numbered {} reports c.ids := by
  induction h with
  | new engine sheet => exact .nil {}
  | addScript _ script ih =>
    rw [ids_addScript]
    exact ih
  | removeScript _ id ih => exact ih
  | addChart _ chart ih => exact ih
  | withSheet _ sheet ih => exact ih
  | withDraws _ draws ih => exact ih
  | recomputeAll _ ih => exact ih.append (numbered_recomputeAll _)
  | attributesChanged _ names ih => exact ih.append (numbered_attributesChanged _ names)

/-- **The reports of a cascade are numbered from 1 on**, through all that is done to it, so that no
two of them have one id. -/
theorem numbered_from_one (h : c.HasReported reports) :
    (reports.map (·.id) =
      (List.range reports.length).map fun i => IdSource.idText ErrorReport.stem (i + 1)) ∧
    (reports.map (·.id)).Nodup := by
  have ids := h.numbered.ids_eq
  exact ⟨by simpa only [IdSource.count_fresh, Nat.zero_add] using ids, h.numbered.nodup⟩

end HasReported

/-- A script that asks its character for something unknown, on an empty sheet. -/
def stumbling : Cascade :=
  (new (.new {}) { characterId := "char-1", rulesetId := "r1" }).addScript
    (.new "s" "r1" .attr none "Owner.missing()")

/-- The script fails in a full computation, and again in a second one: that has the next number. -/
theorem stumbling_numbered :
    HasReported stumbling.recomputeAll.2.recomputeAll.2
      (stumbling.recomputeAll.1.failures ++ stumbling.recomputeAll.2.recomputeAll.1.failures) ∧
    (stumbling.recomputeAll.1.failures ++ stumbling.recomputeAll.2.recomputeAll.1.failures).map
      (·.id) = ["script-error-1", "script-error-2"] := by
  have made : HasReported stumbling [] := .addScript (.new _ _) _
  have reported := made.recomputeAll.recomputeAll
  have twice : (stumbling.recomputeAll.1.failures ++
      stumbling.recomputeAll.2.recomputeAll.1.failures).length = 2 := by decide +kernel
  have numbers : ((List.range 2).map fun i => IdSource.idText ErrorReport.stem (i + 1)) =
      ["script-error-1", "script-error-2"] := by decide
  rw [List.nil_append] at reported
  have ids := reported.numbered_from_one.1
  rw [twice, numbers] at ids
  exact ⟨reported, ids⟩

end Cascade

end SheetScript
