import SheetScript.Proofs.Cascade.Failure

/-!
# Disabled scripts in a cascade

The engine does nothing for a disabled script and answers with an empty result, which is one of a
run that has succeeded. A cascade takes it for such: it stores the value of the result, `null`, in
the attribute of the script.

* `Cascade.turns` lists the scripts of a pass, each with the cascade in which it runs, and
  `Cascade.Spares` says that an enabled script leaves an attribute alone in its turn.
* `Cascade.valueOf?_recordAll` and `Progress.valueOf?_of_rounds`: what a pass and the rounds of a
  change make of such an attribute.
* `Cascade.value_after_cascade`: an attribute that all enabled scripts leave alone is erased if
  one of the scripts that ran is disabled and attached to it, and stays as it is if not.
* `Cascade.exists_erased_by_disabled`: so a disabled script may change the sheet.
-/

namespace SheetScript.Cascade

open Relation

variable {c : Cascade} {id : String} {script : Script}

/-- A script is disabled and attached to the attribute. -/
def erases (id : String) (script : Script) : Bool :=
  !script.enabled && script.entityId == some id

/-- If the script is enabled and succeeds here, it neither computes the attribute nor writes it. -/
def Spares (id : String) (c : Cascade) (script : Script) : Prop :=
  script.enabled = true → (c.evaluate script).1.failure = none →
    script.entityId ≠ some id ∧ id ∉ Entries.keys (c.evaluate script).2.1

instance : Decidable (Spares id c script) := inferInstanceAs (Decidable (_ → _ → _))

/-- The scripts that run one after another, each with the cascade in which it runs. -/
def turns (c : Cascade) : List Script → List (Cascade × Script)
  | [] => []
  | script :: rest => (c, script) :: turns (c.run script).2 rest

/-! ## One turn -/

theorem record_cascade (c : Cascade) (script : Script) (report : CascadeReport) :
    (c.record script report).2.2 = (c.run script).2 := by
  unfold record
  rcases c.run script with ⟨failure | done, after⟩
  · rfl
  · rfl

/-- A disabled script succeeds with `null` and writes nothing. -/
theorem evaluate_disabled (c : Cascade) (disabled : script.enabled = false) :
    c.evaluate script = ({}, [], c) := by
  have writes := (c.contextOf_start script).2.2.2
  unfold evaluate
  rw [Engine.runScript_disabled c.engine _ disabled]
  dsimp only
  rw [writes, contextOf_draws]

theorem valueOf?_storeValue (sheet : Sheet) (script : Script) (value : Json) :
    (storeValue sheet script value).valueOf? id =
      if script.entityId = some id then (sheet.valueOf? id).map fun _ => value
      else sheet.valueOf? id := by
  unfold storeValue
  cases script.entityId with
  | none => rw [if_neg (Option.some_ne_none id).symm]
  | some other =>
    simp only [Sheet.valueOf?_setById, Option.some.injEq, eq_comm]

/-- What the turn of a script makes of an attribute that enabled scripts leave alone. -/
theorem valueOf?_run (spares : Spares id c script) :
    (c.run script).2.sheet.valueOf? id =
      if erases id script then (c.sheet.valueOf? id).map fun _ => .null
      else c.sheet.valueOf? id := by
  rw [← record_cascade c script {}]
  cases enabled : script.enabled with
  | false =>
    have idle := c.evaluate_disabled enabled
    have erases_iff : erases id script = true ↔ script.entityId = some id := by
      simp [erases, enabled]
    rcases c.record_cases script {} with ⟨-, _, eq⟩ | ⟨failed, -⟩
    · rw [eq]
      dsimp only
      rw [sheetAfter, settle, idle]
      simp only [valueOf?_storeValue, erases_iff]
      rfl
    · rw [idle] at failed
      exact absurd rfl failed
  | true =>
    have kept : ¬erases id script = true := by simp [erases, enabled]
    rw [if_neg kept]
    rcases c.record_cases script {} with ⟨ok, _, eq⟩ | ⟨-, _, _, -, eq⟩
    · obtain ⟨apart, unwritten⟩ := spares enabled ok
      rw [eq]
      dsimp only
      rw [sheetAfter, settle, valueOf?_storeValue, if_neg apart, Sheet.valueOf?,
        Sheet.byId?_commit_of_absent unwritten]
      rfl
    · rw [eq]

/-! ## A pass -/

/-- What a pass makes of an attribute that the enabled scripts of the pass leave alone. -/
theorem valueOf?_recordAll {scripts : List Script}
    (spares : ∀ turn ∈ c.turns scripts, Spares id turn.1 turn.2) (report : CascadeReport) :
    (c.recordAll scripts report).2.sheet.valueOf? id =
      if scripts.any (erases id) then (c.sheet.valueOf? id).map fun _ => .null
      else c.sheet.valueOf? id := by
  induction scripts generalizing c report with
  | nil => rfl
  | cons script rest ih =>
    have first := valueOf?_run (spares _ List.mem_cons_self)
    have others : ∀ turn ∈ (c.record script report).2.2.turns rest, Spares id turn.1 turn.2 :=
      fun turn mem => spares turn (List.mem_cons_of_mem _ (record_cascade c script report ▸ mem))
    rw [recordAll_cons, ih others, record_cascade, first, List.any_cons]
    by_cases here : erases id script = true
    · simp [here, Function.comp_def]
    · simp [here]

/-- Where no script is enabled, all attributes are left alone. -/
theorem spares_turns_of_disabled (c : Cascade) {scripts : List Script}
    (disabled : ∀ s ∈ scripts, s.enabled = false) :
    ∀ turn ∈ c.turns scripts, Spares id turn.1 turn.2 := by
  induction scripts generalizing c with
  | nil => exact fun turn mem => absurd mem List.not_mem_nil
  | cons script rest ih =>
    intro turn mem
    rcases List.mem_cons.1 mem with rfl | mem
    · exact fun enabled => absurd enabled (by simp [disabled script List.mem_cons_self])
    · exact ih _ (fun s hs => disabled s (List.mem_cons_of_mem _ hs)) turn mem

/-! ## Rounds -/

namespace Progress

/-- The scripts that a round runs: those that are due, as far as there is room for them. -/
def running (q : Progress) : List Script := q.due.take q.room

theorem nextRound_cascade (q : Progress) :
    q.nextRound.cascade = (q.cascade.recordAll q.running q.report).2 :=
  runRound_cascade q.opened q.due

theorem nextRound_ran (q : Progress) :
    q.nextRound.ran = (q.running.map (·.id)).reverse ++ q.ran := by
  unfold running
  rcases q.nextRound_cases with ⟨fits, eq⟩ | ⟨-, eq⟩
  · rw [eq, foldl_ran, List.take_of_length_le fits]
    rfl
  · rw [eq, truncate, foldl_ran]
    rfl

theorem of_mem_running {q : Progress} (h : script ∈ q.running) : script ∈ q.cascade.members :=
  (of_mem_due (List.mem_of_mem_take h)).1

/-- A script of the cascade that would erase the attribute has run after a round if it had before or
is one of the round. -/
theorem any_erases_nextRound {q : Progress} (sound : q.Sound c) (keyed : c.Keyed) :
    c.members.any (fun s => erases id s && q.nextRound.ran.contains s.id) =
      (q.running.any (erases id) ||
        c.members.any fun s => erases id s && q.ran.contains s.id) := by
  have inside : ∀ t ∈ q.running, t ∈ c.members := fun t ht => by
    rw [sound.frame.members_eq]
    exact of_mem_running ht
  rw [Bool.eq_iff_iff, Bool.or_eq_true, List.any_eq_true, List.any_eq_true, List.any_eq_true,
    nextRound_ran]
  simp only [Bool.and_eq_true, List.contains_iff_mem, List.mem_append, List.mem_reverse,
    List.mem_map]
  constructor
  · rintro ⟨s, hs, erased, ⟨t, ht, same⟩ | old⟩
    · obtain rfl := keyed.eq_of_id (inside t ht) hs same
      exact Or.inl ⟨t, ht, erased⟩
    · exact Or.inr ⟨s, hs, erased, old⟩
  · rintro (⟨t, ht, erased⟩ | ⟨s, hs, erased, old⟩)
    · exact ⟨t, inside t ht, erased, Or.inl ⟨t, ht, rfl⟩⟩
    · exact ⟨s, hs, erased, Or.inr old⟩

/-- What the rounds of a change make of an attribute that the enabled scripts leave alone. -/
theorem valueOf?_of_rounds (keyed : c.Keyed) {names : List String}
    (spares : ∀ q, ReflTransGen Round (start c names) q → ¬q.Over →
      ∀ turn ∈ q.cascade.turns q.running, Spares id turn.1 turn.2)
    {p : Progress} (path : ReflTransGen Round (start c names) p) :
    p.cascade.sheet.valueOf? id =
      if c.members.any fun s => erases id s && p.ran.contains s.id then
        (c.sheet.valueOf? id).map fun _ => .null
      else c.sheet.valueOf? id := by
  induction path with
  | refl =>
    rw [if_neg]
    · rfl
    · simp [start]
  | @tail q _ path round ih =>
    obtain ⟨more, rfl⟩ := round
    rw [nextRound_cascade, valueOf?_recordAll (spares q path more), ih,
      any_erases_nextRound (sound_of_rounds keyed path) keyed]
    by_cases now : q.running.any (erases id) = true
    · by_cases before : (c.members.any fun s => erases id s && q.ran.contains s.id) = true
      · simp only [now, before, if_true, Bool.or_self, Option.map_map, Function.comp_def]
      · rw [if_pos now, if_neg before, now, Bool.true_or, if_pos rfl]
    · rw [if_neg now, Bool.eq_false_iff.2 now, Bool.false_or]

end Progress

/-! ## Whole cascades -/

/-- The scripts of a full computation, each with the cascade in which it runs. -/
def fullTurns (c : Cascade) : List (Cascade × Script) :=
  (c.prime c.members).turns ((c.prime c.members).dependencyOrder c.members)

theorem valueOf?_recomputeAll (spares : ∀ turn ∈ c.fullTurns, Spares id turn.1 turn.2) :
    c.recomputeAll.2.sheet.valueOf? id =
      if c.members.any (erases id) then (c.sheet.valueOf? id).map fun _ => .null
      else c.sheet.valueOf? id := by
  have pass := valueOf?_recordAll spares {}
  rw [prime_sheet, ((c.prime c.members).dependencyOrder_perm c.members).any_eq] at pass
  exact pass

/-- **What becomes of an attribute that enabled scripts leave alone.** After a full computation it is
erased if a disabled script is attached to it, and as it was if not. After a change the same holds,
but for disabled scripts that did not run. -/
theorem value_after_cascade (c : Cascade) (id : String) (keyed : c.Keyed) :
    ((∀ turn ∈ c.fullTurns, Spares id turn.1 turn.2) →
      c.recomputeAll.2.sheet.valueOf? id =
        if c.members.any (erases id) then (c.sheet.valueOf? id).map fun _ => .null
        else c.sheet.valueOf? id) ∧
    ∀ names, (∀ q, ReflTransGen Round (.start c names) q → ¬q.Over →
        ∀ turn ∈ q.cascade.turns q.running, Spares id turn.1 turn.2) →
      (c.attributesChanged names).2.sheet.valueOf? id =
        if c.members.any (fun s => erases id s && (c.attributesChanged names).1.ids.contains s.id)
        then (c.sheet.valueOf? id).map fun _ => .null else c.sheet.valueOf? id := by
  refine ⟨valueOf?_recomputeAll, fun names spares => ?_⟩
  obtain ⟨p, eq, path, -⟩ := Progress.rounds_attributesChanged c names
  have noted := (Progress.sound_of_rounds keyed path).noted
  have same : ∀ script : Script, p.ran.contains script.id = p.report.ids.contains script.id :=
    fun script => noted.symm.contains_eq
  rw [eq, Progress.valueOf?_of_rounds keyed spares path]
  simp only [same]

/-! ## A disabled script beside an enabled one -/

/-- A disabled script of the first of two attributes. -/
def idleScript : Script := { Script.new "d" "r1" .attr (some "a") "1" with enabled := false }

/-- A cascade with the disabled script alone; the host has subscribed it to the second attribute. -/
def idle : Cascade where
  engine := { Engine.new {} with subscriptions := ({} : Subscriptions).registerFor "d" ["B"] }
  sheet := twoAttributes (.integer 7) (.bool true)
  scripts := [("d", idleScript)]

/-- Besides, an enabled script computes the second attribute from the first. -/
def idleAndMirror : Cascade := idle.addScript (mirror "m" "b" "A")

theorem wellFormed_idle : idle.WellFormed where
  sorted := List.pairwise_singleton _ _
  ids := by decide
  inverse := Subscriptions.inverse_empty.registerFor _ _
  faithful := fun _ _ => Cache.faithful_of_absent rfl

theorem wellFormed_idleAndMirror : idleAndMirror.WellFormed := wellFormed_idle.addScript _

theorem spares_idleAndMirror :
    ∀ turn ∈ idleAndMirror.fullTurns, Spares "a" turn.1 turn.2 := by decide +kernel

theorem spares_idle {names : List String} {q : Progress}
    (path : ReflTransGen Round (.start idle names) q) :
    ∀ turn ∈ q.cascade.turns q.running, Spares "a" turn.1 turn.2 := by
  refine spares_turns_of_disabled _ fun s hs => ?_
  have member := Progress.of_mem_running hs
  rw [← (Progress.sound_of_rounds wellFormed_idle.toKeyed path).frame.members_eq] at member
  obtain rfl := List.mem_singleton.1 member
  rfl

/-- The attribute of the disabled script is erased, by a full computation and by a change. -/
theorem idle_value_after_cascade :
    (∀ turn ∈ idleAndMirror.fullTurns, Spares "a" turn.1 turn.2) ∧
      idleAndMirror.recomputeAll.2.sheet.valueOf? "a" = some .null ∧
      (idle.attributesChanged ["B"]).2.sheet.valueOf? "a" = some .null := by
  refine ⟨spares_idleAndMirror, ?_, ?_⟩
  · rw [(value_after_cascade idleAndMirror "a" wellFormed_idleAndMirror.toKeyed).1
      spares_idleAndMirror, if_pos (by decide)]
    rfl
  · rw [(value_after_cascade idle "a" wellFormed_idle.toKeyed).2 ["B"] fun q path _ =>
      spares_idle path, if_pos (by decide +kernel)]
    rfl

/-- A disabled script may change the sheet: it erases the attribute that it is attached to, which no
enabled script computes or writes. -/
theorem exists_erased_by_disabled :
    ¬∀ (c : Cascade) (id : String), c.WellFormed →
      (∀ turn ∈ c.fullTurns, Spares id turn.1 turn.2) →
      c.recomputeAll.2.sheet.valueOf? id = c.sheet.valueOf? id := by
  intro unchanged
  have same := unchanged idleAndMirror "a" wellFormed_idleAndMirror spares_idleAndMirror
  rw [valueOf?_recomputeAll spares_idleAndMirror, if_pos (by decide)] at same
  nomatch same

end SheetScript.Cascade
