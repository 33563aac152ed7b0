import SheetScript.Host.Runner
import SheetScript.Proofs.Cascade.Failure

/-!
# Requests that fail

A runner commits what a run staged when the run has succeeded. A run that fails, at whatever point
and whatever it wrote before, leaves all sheets as they were.

* `Runner.evaluate_sheet`: the run of a request does not touch the sheet it owns.
* `Runner.sheets_of_failure`: a request that fails leaves the sheets as they were.
* `failure_leaves_sheet` is the statement about all that runs scripts: requests, the steps of a
  cascade, and its first pass.
-/

namespace SheetScript

namespace Runner

variable {r : Runner} {q : RunRequest} {sheet : Sheet}

theorem staging_contextOf (owned : q.characterId.bind r.sheet? = some sheet) :
    (r.contextOf q).Staging sheet := by
  have installed (c : Context) : (r.forCharacter c q.characterId).Staging sheet := by
    obtain ⟨id, named, found⟩ := Option.bind_eq_some_iff.1 owned
    unfold forCharacter
    rw [named]
    dsimp only
    rw [found]
    exact Context.staging_install _ _
  unfold contextOf
  exact Cascade.foldl_addChart_cases (P := Context.Staging sheet) (fun _ _ h => h) _ _ (installed _)

/-- The run of a request leaves the sheet that it owns as it is. -/
theorem evaluate_sheet (owned : q.characterId.bind r.sheet? = some sheet) :
    (r.evaluate q).2.1.sheet? = some sheet := by
  have start := staging_contextOf owned
  unfold evaluate
  cases q.event with
  | some event =>
    exact (r.engine.runEvent_staging q.script event (q.args.map Value.ofJson) start).sheet?_eq
  | none => exact (r.engine.runScript_staging q.script start).sheet?_eq

/-- A request that fails leaves the sheets as they were. -/
theorem sheets_of_failure (failed : (r.run q).1.error ≠ none) : (r.run q).2.sheets = r.sheets := by
  unfold run at failed ⊢
  generalize r.evaluate q = ran at failed ⊢
  obtain ⟨result, context, engine⟩ := ran
  dsimp only at failed ⊢
  cases failure : result.failure with
  | none => simp [RunReply.ofResult, failure] at failed
  | some f => rw [RunResult.ok, failure, if_neg (by simp)]

end Runner

open Cascade (Progress mirror twoAttributes)

/-- **A run that fails leaves the sheet as it was.** This holds of the requests that a runner
answers and of the steps of a cascade: the run itself leaves its sheet alone, and nothing is brought
to it when the run fails. In a cascade the script then has one report, and the others go on as if it
had not run, but for the draws that it has made, in a round with room for one run less. The first
pass of a full computation changes no sheet, whether or not scripts fail. -/
theorem failure_leaves_sheet :
    (∀ (r : Runner) (q : RunRequest),
      (∀ sheet, q.characterId.bind r.sheet? = some sheet →
        (r.evaluate q).2.1.sheet? = some sheet) ∧
      ((r.run q).1.error ≠ none → (r.run q).2.sheets = r.sheets)) ∧
    (∀ (c : Cascade) (script : Script) (report : CascadeReport),
      (c.engine.runScript script (c.contextOf script)).2.1.sheet? = some c.sheet ∧
      ((c.evaluate script).1.failure ≠ none → (c.record script report).2.2.sheet = c.sheet ∧
        (c.record script report).1 = [] ∧ ∃ failure, failure.scriptId = script.id ∧
          (c.record script report).2.1 =
            { report with failures := report.failures ++ [failure] })) ∧
    (∀ (c : Cascade) (script : Script), c.WellFormed → script ∈ c.members →
      (c.evaluate script).1.failure ≠ none → ∀ rest, (∀ s ∈ rest, s ∈ c.members) →
      (∀ report report', (c.recordAll (script :: rest) report).2.sheet =
        ((c.drawn script).recordAll rest report').2.sheet) ∧
      ∀ q : Progress, q.cascade = c → 0 < q.room →
        (Cascade.runRound q (script :: rest)).cascade.sheet =
          ((c.drawn script).recordAll (rest.take (q.room - 1)) q.report).2.sheet) ∧
    ∀ (c : Cascade) (scripts : List Script), (c.prime scripts).sheet = c.sheet := by
  refine ⟨fun r q => ⟨fun sheet => Runner.evaluate_sheet, Runner.sheets_of_failure⟩,
    fun c script report => ⟨?_, fun failed => Cascade.record_of_failure failed report⟩,
    fun c script wf mem failed rest rest_mem => ⟨fun report report' => ?_, ?_⟩,
    Cascade.prime_sheet⟩
  · exact (c.engine.runScript_staging script (c.staging_contextOf script)).sheet?_eq
  · exact (Cascade.twin_recordAll_of_failure wf mem failed rest_mem report report').sheet
  · rintro q rfl room
    exact Cascade.sheet_runRound_of_failure wf mem failed rest_mem room

/-! ## A script that writes and then fails -/

/-- A script that writes an attribute and then asks its character for something unknown. -/
def failing : Script :=
  .new "f" "r1" .attr (some "a") "Owner.Attribute(\"A\").set(\"new\")\nOwner.missing()"

/-- A runner with one sheet. -/
def oneSheetRunner : Runner := (Runner.new (.new {})).addSheet oneAttribute

/-- A request to run the script for the character of the sheet. -/
def failingRequest : RunRequest :=
  { script := failing, event := none, characterId := some "char-1" }

/-- A cascade of the script, and of one that gives another attribute the value that the failing
script has written. -/
def failingFirst : Cascade :=
  ((Cascade.new (.new {}) (twoAttributes (.bool true) .null)).addScript failing).addScript
    (mirror "m" "b" "A")

theorem mem_members_failingFirst {script : Script} :
    script ∈ failingFirst.members ↔ script = failing ∨ script = mirror "m" "b" "A" := by
  rw [show failingFirst.members = [failing, mirror "m" "b" "A"] from rfl, List.mem_pair]

theorem wellFormed_failingFirst : failingFirst.WellFormed :=
  ((Cascade.wellFormed_new Subscriptions.inverse_empty _).addScript _).addScript _

/-- The script fails. The other one, when it runs afterwards, still finds the value from before. -/
theorem evaluate_failing : (failingFirst.evaluate failing).1.failure ≠ none ∧
    (((failingFirst.drawn failing).recordAll [mirror "m" "b" "A"] {}).2.sheet.value? "B").any
      (· == .bool true) = true := by
  decide +kernel

/-- The script fails for a request and in a cascade, where another one runs after it. The sheet
stays as it is, and the other script computes what it computes without the one that fails. -/
theorem failing_leaves_sheet :
    (oneSheetRunner.run failingRequest).1.error ≠ none ∧
      (oneSheetRunner.run failingRequest).2.sheets = oneSheetRunner.sheets ∧
      (failingFirst.evaluate failing).1.failure ≠ none ∧
      (failingFirst.record failing {}).2.2.sheet = twoAttributes (.bool true) .null ∧
      (failingFirst.recordAll [failing, mirror "m" "b" "A"] {}).2.sheet =
        ((failingFirst.drawn failing).recordAll [mirror "m" "b" "A"] {}).2.sheet ∧
      (((failingFirst.recordAll [failing, mirror "m" "b" "A"] {}).2.sheet.value? "B").any
        (· == .bool true)) = true := by
  have failed : (oneSheetRunner.run failingRequest).1.error ≠ none := by decide +kernel
  obtain ⟨failed', later⟩ := evaluate_failing
  obtain ⟨request, step, rest, -⟩ := failure_leaves_sheet
  have same := (rest _ failing wellFormed_failingFirst (mem_members_failingFirst.2 (.inl rfl))
    failed' [mirror "m" "b" "A"] fun s mem =>
      mem_members_failingFirst.2 (.inr (List.mem_singleton.1 mem))).1 {} {}
  refine ⟨failed, (request _ _).2 failed, failed', ((step _ _ {}).2 failed').1, same, ?_⟩
  rw [same]
  exact later

end SheetScript
