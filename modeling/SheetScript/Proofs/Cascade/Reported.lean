import SheetScript.Proofs.Cascade.Disabled
import SheetScript.Proofs.Value.Exported

/-!
# The changes that a report names

A script changes the sheet in two ways: its run writes through the character, and its result goes to
the attribute that it computes. The writes are brought to the sheet first. Only then is the result
compared with what the attribute holds, and nothing else puts a name into the report.

* `Cascade.Announces`: a turn puts a name into the report. `Cascade.mem_changed_recordAll` and
  `Progress.mem_changed_of_rounds` say that the report has these names and no other.
* `Cascade.Overwrites`: the writes of a turn change an attribute by themselves.
* `Cascade.changes_reported`: an attribute with another value than before is named, unless some
  turn has overwritten it.
* `Cascade.exists_change_missed`: so a change may be missed.
-/

namespace SheetScript.Cascade

open Relation

variable {c : Cascade} {id name : String} {script : Script}

/-- The sheet with the writes of a script, before its result is stored. -/
def committed (c : Cascade) (script : Script) : Sheet := c.sheet.commit (c.evaluate script).2.1

/-- A script that succeeds here changes, by its result, an attribute of that name. -/
def Announces (c : Cascade) (script : Script) (name : String) : Prop :=
  (c.evaluate script).1.failure = none ∧ ∃ id, script.entityId = some id ∧
    (c.committed script).nameOf? id = some name ∧
    (c.committed script).valueOf? id ≠ (c.run script).2.sheet.valueOf? id

/-- A script that succeeds here changes an attribute by its writes. -/
def Overwrites (c : Cascade) (script : Script) (id : String) : Prop :=
  (c.evaluate script).1.failure = none ∧ c.sheet.valueOf? id ≠ (c.committed script).valueOf? id

/-! ## One turn -/

theorem run_sheet_of_ok (ok : (c.evaluate script).1.failure = none) :
    (c.run script).2.sheet =
      storeValue (c.committed script) script (c.evaluate script).1.value.toJson := by
  rw [← record_cascade c script {}]
  rcases c.record_cases script {} with ⟨-, _, eq⟩ | ⟨failed, -⟩
  · rw [eq]
    rfl
  · exact absurd ok failed

theorem run_sheet_of_failure (failed : (c.evaluate script).1.failure ≠ none) :
    (c.run script).2.sheet = c.sheet := by
  rw [← record_cascade c script {}]
  rcases c.record_cases script {} with ⟨ok, -⟩ | ⟨-, _, _, -, eq⟩
  · exact absurd ok failed
  · rw [eq]

theorem changed_record_of_ok (ok : (c.evaluate script).1.failure = none) (report : CascadeReport) :
    (c.record script report).2.1.changed = report.changed ++
      if valueChanges (c.committed script) script (c.evaluate script).1.value.toJson then
        (producedName? (c.committed script) script).toList
      else [] := by
  unfold record run committed
  rcases eval : c.evaluate script with ⟨result, writes, after⟩
  rw [eval] at ok
  have sheet : after.sheet = c.sheet := by
    have kept := congrArg Cascade.sheet (c.evaluate_cascade script)
    rwa [eval] at kept
  dsimp only at ok ⊢
  rw [ok]
  dsimp only [settle]
  rw [sheet]

/-- A result is another value than that of the attribute when storing it changes the attribute. -/
theorem valueChanges_iff {sheet : Sheet} {value : Value} (attached : script.entityId = some id)
    (known : (sheet.byId? id).isSome) :
    valueChanges sheet script value.toJson = true ↔
      sheet.valueOf? id ≠ (storeValue sheet script value.toJson).valueOf? id := by
  obtain ⟨a, found⟩ := Option.isSome_iff_exists.1 known
  have before : sheet.valueOf? id = some a.value := congrArg (Option.map Attribute.value) found
  rw [valueOf?_storeValue, if_pos attached, before, valueChanges, attached]
  dsimp only
  rw [found, Option.any_some, Option.map_some, Bool.not_eq_true', ← Bool.not_eq_true,
    Value.beq_toJson_iff, ne_eq, Option.some.injEq]

/-- A turn that succeeds announces a name when its result is another value than the attribute
holds after the writes. -/
theorem announces_iff (ok : (c.evaluate script).1.failure = none) :
    c.Announces script name ↔
      valueChanges (c.committed script) script (c.evaluate script).1.value.toJson = true ∧
        producedName? (c.committed script) script = some name := by
  rw [Announces, and_iff_right ok, run_sheet_of_ok ok]
  have known : ∀ id, (c.committed script).nameOf? id = some name →
      ((c.committed script).byId? id).isSome := fun id named => by
    rw [← Option.isSome_map (f := (·.name))]
    exact Option.isSome_of_eq_some named
  constructor
  · rintro ⟨id, attached, named, other⟩
    refine ⟨(valueChanges_iff attached (known id named)).2 other, ?_⟩
    rw [producedName?, attached]
    exact named
  · rintro ⟨other, made⟩
    obtain ⟨id, attached, named⟩ := Option.bind_eq_some_iff.1 made
    exact ⟨id, attached, named, (valueChanges_iff attached (known id named)).1 other⟩

/-- **One turn puts the name into the report that it announces.** -/
theorem mem_changed_record (c : Cascade) (script : Script) (report : CascadeReport) :
    name ∈ (c.record script report).2.1.changed ↔
      name ∈ report.changed ∨ c.Announces script name := by
  by_cases ok : (c.evaluate script).1.failure = none
  · rw [changed_record_of_ok ok, List.mem_append, announces_iff ok]
    refine or_congr_right ?_
    by_cases other : valueChanges (c.committed script) script (c.evaluate script).1.value.toJson
    · simp [other]
    · simp [other]
  · obtain ⟨_, _, _, _, eq⟩ := record_of_failure ok report
    rw [eq]
    exact (or_iff_left fun announced => ok announced.1).symm

/-- A turn after which an attribute has another value overwrites it or announces it. -/
theorem value_run (other : (c.run script).2.sheet.valueOf? id ≠ c.sheet.valueOf? id) :
    c.Overwrites script id ∨ ∃ name, c.sheet.nameOf? id = some name ∧ c.Announces script name := by
  by_cases ok : (c.evaluate script).1.failure = none
  · by_cases same : c.sheet.valueOf? id = (c.committed script).valueOf? id
    · -- then the result has been stored in it
      rw [same] at other
      have stored := other
      rw [run_sheet_of_ok ok, valueOf?_storeValue] at stored
      split_ifs at stored with attached
      · have frame := c.sheet.sameFrame_commit (c.evaluate script).2.1
        cases found : (c.committed script).byId? id with
        | none => simp [Sheet.valueOf?, found] at stored
        | some a =>
          have named : (c.committed script).nameOf? id = some a.name :=
            congrArg (Option.map Attribute.name) found
          exact .inr ⟨a.name, (frame.nameOf?_eq id).trans named, ok, id, attached, named,
            other.symm⟩
      · exact absurd rfl stored
    · exact .inl ⟨ok, same⟩
  · rw [run_sheet_of_failure ok] at other
    exact absurd rfl other

/-! ## A pass -/

/-- **A pass puts the names into the report that its turns announce**, and no other. -/
theorem mem_changed_recordAll (c : Cascade) (scripts : List Script) (report : CascadeReport) :
    name ∈ (c.recordAll scripts report).1.changed ↔
      name ∈ report.changed ∨ ∃ turn ∈ c.turns scripts, turn.1.Announces turn.2 name := by
  induction scripts generalizing c report with
  | nil => simp [recordAll, turns]
  | cons script rest ih =>
    rw [recordAll_cons, ih, mem_changed_record, record_cascade, turns, or_assoc]
    simp only [List.mem_cons, exists_eq_or_imp]

/-- When an attribute has another value after a pass, some turn has overwritten or announced it. -/
theorem value_recordAll (c : Cascade) (scripts : List Script) (report : CascadeReport)
    (other : (c.recordAll scripts report).2.sheet.valueOf? id ≠ c.sheet.valueOf? id) :
    (∃ turn ∈ c.turns scripts, turn.1.Overwrites turn.2 id) ∨
      ∃ name, c.sheet.nameOf? id = some name ∧
        ∃ turn ∈ c.turns scripts, turn.1.Announces turn.2 name := by
  induction scripts generalizing c report with
  | nil => exact absurd rfl other
  | cons script rest ih =>
    rw [recordAll_cons, record_cascade] at other
    rw [turns]
    by_cases same : (c.run script).2.sheet.valueOf? id = c.sheet.valueOf? id
    · rw [← same] at other
      have frame := c.sameFrame_record script report
      rw [record_cascade] at frame
      rcases ih _ _ other with ⟨turn, mem, written⟩ | ⟨name, named, turn, mem, announced⟩
      · exact .inl ⟨turn, List.mem_cons_of_mem _ mem, written⟩
      · refine .inr ⟨name, ?_, turn, List.mem_cons_of_mem _ mem, announced⟩
        rw [frame.sheet.nameOf?_eq, named]
    · rcases value_run same with written | ⟨name, named, announced⟩
      · exact .inl ⟨(c, script), List.mem_cons_self, written⟩
      · exact .inr ⟨name, named, (c, script), List.mem_cons_self, announced⟩

/-! ## Rounds -/

namespace Progress

theorem foldl_step_report (q : Progress) (scripts : List Script) :
    (scripts.foldl Progress.step q).report = (q.cascade.recordAll scripts q.report).1 := by
  induction scripts generalizing q with
  | nil => rfl
  | cons script rest ih => exact ih (q.step script)

theorem nextRound_changed (q : Progress) :
    q.nextRound.report.changed = (q.cascade.recordAll q.running q.report).1.changed := by
  unfold running
  rcases q.nextRound_cases with ⟨fits, eq⟩ | ⟨-, eq⟩
  · rw [eq, foldl_step_report, List.take_of_length_le fits]
    rfl
  · rw [eq, truncate, foldl_step_report]
    rfl

theorem frame_of_rounds {p q : Progress} (path : ReflTransGen Round p q) :
    p.cascade.SameFrame q.cascade := by
  induction path with
  | refl => exact .refl _
  | @tail q _ _ round ih =>
    obtain ⟨-, rfl⟩ := round
    rcases q.nextRound_cases with ⟨-, eq⟩ | ⟨-, eq⟩
    · rw [eq]
      exact ih.trans (q.opened.foldl_frame _)
    · rw [eq]
      exact ih.trans (q.opened.foldl_frame _)

/-- What has been reported stays reported. -/
theorem changed_subset_of_rounds {p q : Progress} (path : ReflTransGen Round p q)
    (h : name ∈ p.report.changed) : name ∈ q.report.changed := by
  induction path with
  | refl => exact h
  | @tail q _ _ round ih =>
    obtain ⟨-, rfl⟩ := round
    rw [nextRound_changed, mem_changed_recordAll]
    exact .inl ih

end Progress

/-- The turns of a change: in some round of it, the script runs in that cascade. -/
def changeTurns (c : Cascade) (names : List String) : Set (Cascade × Script) :=
  {turn | ∃ q, ReflTransGen Round (.start c names) q ∧ ¬q.Over ∧
    turn ∈ q.cascade.turns q.running}

namespace Progress

/-- **A change puts the names into the report that its turns announce**, and no other. -/
theorem mem_changed_of_rounds {names : List String} {p : Progress}
    (rounds : ReflTransGen Round (start c names) p) (ended : p.Over) :
    name ∈ p.report.changed ↔ ∃ turn ∈ c.changeTurns names, turn.1.Announces turn.2 name := by
  constructor
  · clear ended
    intro changed
    induction rounds with
    | refl => exact absurd changed List.not_mem_nil
    | @tail q _ path round ih =>
      obtain ⟨more, rfl⟩ := round
      rw [nextRound_changed, mem_changed_recordAll] at changed
      rcases changed with before | ⟨turn, mem, announced⟩
      · exact ih before
      · exact ⟨turn, ⟨q, path, more, mem⟩, announced⟩
  · rintro ⟨turn, ⟨q, path, more, mem⟩, announced⟩
    have last := rounds_to_end rounds ended (path.tail ⟨more, rfl⟩)
    refine changed_subset_of_rounds last ?_
    rw [nextRound_changed, mem_changed_recordAll]
    exact .inr ⟨turn, mem, announced⟩

/-- When an attribute has another value after some rounds, one of their turns has overwritten or
announced it. -/
theorem value_of_rounds {names : List String} {p : Progress}
    (rounds : ReflTransGen Round (start c names) p)
    (other : p.cascade.sheet.valueOf? id ≠ c.sheet.valueOf? id) :
    (∃ turn ∈ c.changeTurns names, turn.1.Overwrites turn.2 id) ∨
      ∃ name, c.sheet.nameOf? id = some name ∧
        ∃ turn ∈ c.changeTurns names, turn.1.Announces turn.2 name := by
  induction rounds with
  | refl => exact absurd rfl other
  | @tail q _ path round ih =>
    by_cases same : q.cascade.sheet.valueOf? id = c.sheet.valueOf? id
    · obtain ⟨more, rfl⟩ := round
      rw [nextRound_cascade, ← same] at other
      have frame := frame_of_rounds path
      rcases value_recordAll _ _ _ other with ⟨turn, mem, written⟩ | ⟨name, named, turn, mem, told⟩
      · exact .inl ⟨turn, ⟨q, path, more, mem⟩, written⟩
      · exact .inr ⟨name, (frame.sheet.nameOf?_eq id).trans named, turn, ⟨q, path, more, mem⟩, told⟩
    · exact ih same

end Progress

/-! ## Whole cascades -/

/-- What the report of a cascade tells of the changes that its turns made. -/
structure Reported (c : Cascade) (turns : Set (Cascade × Script))
    (result : CascadeReport × Cascade) : Prop where
  /-- The names in the report are those that some turn announces. -/
  mem_iff : ∀ name, name ∈ result.1.changed ↔ ∃ turn ∈ turns, turn.1.Announces turn.2 name
  /-- An attribute with another value than before is among them, if no turn overwrites it. -/
  complete : ∀ id, (∀ turn ∈ turns, ¬turn.1.Overwrites turn.2 id) →
    result.2.sheet.valueOf? id ≠ c.sheet.valueOf? id →
    ∃ name, c.sheet.nameOf? id = some name ∧ name ∈ result.1.changed

/-- **The changes that are reported**, by a full computation and by a change: those that results
make. An attribute that has changed is named, unless the writes of some script changed it. -/
theorem changes_reported (c : Cascade) :
    c.Reported {turn | turn ∈ c.fullTurns} c.recomputeAll ∧
      ∀ names, c.Reported (c.changeTurns names) (c.attributesChanged names) := by
  constructor
  · have told : ∀ name, name ∈ c.recomputeAll.1.changed ↔
        ∃ turn ∈ c.fullTurns, turn.1.Announces turn.2 name := fun name =>
      (mem_changed_recordAll _ _ {}).trans (or_iff_right List.not_mem_nil)
    refine ⟨told, fun id kept other => ?_⟩
    rw [← prime_sheet c c.members] at other ⊢
    rcases value_recordAll _ _ _ other with ⟨turn, mem, written⟩ | ⟨name, named, announced⟩
    · exact absurd written (kept turn mem)
    · exact ⟨name, named, (told name).2 announced⟩
  · intro names
    obtain ⟨p, eq, rounds, ended⟩ := Progress.rounds_attributesChanged c names
    rw [eq]
    have told : ∀ name, name ∈ p.report.changed ↔
        ∃ turn ∈ c.changeTurns names, turn.1.Announces turn.2 name := fun name =>
      Progress.mem_changed_of_rounds rounds ended
    refine ⟨told, fun id kept other => ?_⟩
    rcases Progress.value_of_rounds rounds other with
      ⟨turn, mem, written⟩ | ⟨name, named, announced⟩
    · exact absurd written (kept turn mem)
    · exact ⟨name, named, (told name).2 announced⟩

/-- A script without writes overwrites nothing. -/
theorem not_overwrites (h : (c.evaluate script).2.1 = []) : ¬c.Overwrites script id := by
  rintro ⟨-, other⟩
  rw [committed, h] at other
  exact other rfl

theorem Underway.not_overwrites {reads : Script → List String} {d : Cascade}
    (h : c.Formulas reads) (wf : c.WellFormed) (under : Underway c reads d) {scripts : List Script}
    (mem : ∀ s ∈ scripts, s ∈ c.members) (id : String) :
    ∀ turn ∈ d.turns scripts, ¬turn.1.Overwrites turn.2 id := by
  induction scripts generalizing d with
  | nil => exact List.forall_mem_nil _
  | cons script rest ih =>
    obtain ⟨first, later⟩ := List.forall_mem_cons.1 mem
    have quiet := evaluate_writes_eq_nil (under.modified_eq_nil h wf first)
    have next := (under.record h wf first {}).2.2.2.1
    rw [record_cascade] at next
    exact List.forall_mem_cons.2 ⟨Cascade.not_overwrites quiet, ih next later⟩

/-- Formulas overwrite nothing. -/
theorem Formulas.not_overwrites {reads : Script → List String} (h : c.Formulas reads)
    (wf : c.WellFormed) (id : String) : ∀ turn ∈ c.fullTurns, ¬turn.1.Overwrites turn.2 id :=
  (h.underway_prime wf (.refl c) wf).not_overwrites h wf
    (fun _ mem => mem_dependencyOrder.1 mem) id

/-- In a chain of two formulas, the attribute that one computes changes and is reported. -/
theorem mirrored_changes_reported :
    (∀ turn ∈ mirrored.fullTurns, ¬turn.1.Overwrites turn.2 "b") ∧
      mirrored.recomputeAll.2.sheet.valueOf? "b" ≠ mirrored.sheet.valueOf? "b" ∧
      "B" ∈ mirrored.recomputeAll.1.changed := by
  have kept := formulas_mirrored.not_overwrites wellFormed_mirrored "b"
  have other : mirrored.recomputeAll.2.sheet.valueOf? "b" ≠ mirrored.sheet.valueOf? "b" := by
    obtain ⟨-, -, under, settled, free⟩ :=
      formulas_mirrored.recomputeAll wellFormed_mirrored (.refl _) wellFormed_mirrored
    have first := free "A" (by decide)
    have second := settled (mirror "n" "b" "A") (mem_members_mirrored.2 (.inr rfl)) "B" rfl {}
    obtain ⟨x, y, z, sheet⟩ := eq_chainSheet under.frame.sheet
    rw [sheet] at first second ⊢
    obtain rfl : x = .bool true := Option.some.inj first
    rw [valueOn, (evaluate_mirrored (mem_members_mirrored.2 (.inr rfl)) ..).1] at second
    obtain rfl : y = .bool true := Option.some.inj second
    exact nofun
  obtain ⟨name, named, told⟩ := (changes_reported mirrored).1.complete "b" kept other
  obtain rfl : "B" = name := Option.some.inj named
  exact ⟨kept, other, told⟩

/-- A script that writes the attribute that it is attached to. -/
def setter : Script := .new "s" "r1" .attr (some "a") "Owner.Attribute(\"A\").set(5)"

/-- A cascade with that script alone. -/
def selfWritten : Cascade :=
  (Cascade.new (.new {}) (twoAttributes (.integer 0) .null)).addScript setter

theorem wellFormed_selfWritten : selfWritten.WellFormed :=
  (wellFormed_new Subscriptions.inverse_empty _).addScript setter

/-- A script that writes its own attribute computes the value that it has written, so the change
is not reported. -/
theorem exists_change_missed :
    ¬∀ (c : Cascade) (id : String), c.WellFormed →
      c.recomputeAll.2.sheet.valueOf? id ≠ c.sheet.valueOf? id →
      ∃ name, c.sheet.nameOf? id = some name ∧ name ∈ c.recomputeAll.1.changed := by
  intro claim
  obtain ⟨now, missed⟩ :
      (selfWritten.recomputeAll.2.sheet.valueOf? "a").any (· == .integer 0) = false ∧
        selfWritten.recomputeAll.1.changed = [] := by
    decide +kernel
  have changed : selfWritten.recomputeAll.2.sheet.valueOf? "a" ≠
      selfWritten.sheet.valueOf? "a" := by
    intro same
    rw [same] at now
    exact absurd now (by decide)
  obtain ⟨name, -, mem⟩ := claim selfWritten "a" wellFormed_selfWritten changed
  rw [missed] at mem
  exact absurd mem List.not_mem_nil

end SheetScript.Cascade
