import SheetScript.Proofs.Cascade.Formulas
import SheetScript.Proofs.Cascade.Rounds

/-!
# A change and a full pass agree

For scripts that are formulas, running what a change reaches leaves the sheet that running all
scripts leaves.

* `Cascade.Underway.attributesChanged`: a change settles a sheet if it names something that each
  script which is not settled reads.
* `Cascade.attributesChanged_eq_recomputeAll`: after a full pass, setting attributes that no script
  computes and running what they reach is as good as another full pass. Both sheets are settled and
  agree where nothing is computed, and there is only one such sheet.
-/

namespace SheetScript.Cascade

open Relation

variable {c d : Cascade} {reads : Script → List String}

/-- The cascade with new values for the attributes of some names. -/
def withNews (c : Cascade) (news : List (String × Json)) : Cascade :=
  c.onSheet (news.foldl (fun sheet new => sheet.setByName new.1 new.2) c.sheet) c.draws

theorem sameFrame_withNews (c : Cascade) (news : List (String × Json)) :
    c.SameFrame (c.withNews news) := by
  have set : ∀ sheet : Sheet, sheet.SameFrame
      (news.foldl (fun sheet new => sheet.setByName new.1 new.2) sheet) := by
    induction news with
    | nil => exact fun sheet => .refl sheet
    | cons new rest ih => exact fun sheet => (sheet.sameFrame_setByName _ _).trans (ih _)
  exact ⟨rfl, rfl, rfl, set c.sheet⟩

theorem value?_withNews (c : Cascade) (news : List (String × Json)) {name : String}
    (out : ∀ new ∈ news, new.1 ≠ name) :
    (c.withNews news).sheet.value? name = c.sheet.value? name := by
  have set : ∀ sheet : Sheet,
      (news.foldl (fun sheet new => sheet.setByName new.1 new.2) sheet).value? name =
        sheet.value? name := by
    induction news with
    | nil => exact fun _ => rfl
    | cons new rest ih =>
      intro sheet
      have first := out new List.mem_cons_self
      rw [List.foldl_cons, ih fun new mem => out new (List.mem_cons_of_mem _ mem),
        Sheet.value?_setByName, if_neg (Ne.symm first)]
  exact set c.sheet

theorem Underway.withNews (under : Underway c reads d) (news : List (String × Json)) :
    Underway c reads (d.withNews news) :=
  ⟨under.frame.trans (d.sameFrame_withNews news), under.wellFormed.withSheet _, under.subscribed⟩

/-! ## A change of formulas -/

theorem Underway.readsName_iff (under : Underway c reads d) {script : Script}
    (mem : script ∈ c.members) {name : String} :
    d.readsName script name ↔ name ∈ reads script := by
  rw [Cascade.readsName_iff, ← under.subscribed script mem name]
  exact (under.wellFormed.inverse script.id name).symm

/-- Formulas touch no other attribute: a round of them is a run in order. -/
theorem Underway.foldl_step (h : c.Formulas reads) (wf : c.WellFormed) {p : Progress}
    (under : Underway c reads p.cascade) {order : List Script} (mem : ∀ s ∈ order, s ∈ c.members) :
    (order.foldl Progress.step p).touched = p.touched ∧
      (order.foldl Progress.step p).cascade = (p.cascade.recordAll order p.report).2 := by
  induction order generalizing p with
  | nil => exact ⟨rfl, rfl⟩
  | cons s rest ih =>
    obtain ⟨touched, -, -, next, -⟩ := under.record h wf (mem s List.mem_cons_self) p.report
    obtain ⟨touched', cascade⟩ := ih (p := p.step s) next
      fun t ht => mem t (List.mem_cons_of_mem _ ht)
    refine ⟨touched'.trans ?_, cascade⟩
    change p.touched ++ (p.cascade.record s p.report).1 = p.touched
    rw [touched, List.append_nil]

/-- With room for all scripts, a change of formulas is one round. -/
theorem Underway.attributesChanged_eq (h : c.Formulas reads) (wf : c.WellFormed)
    (under : Underway c reads d) (room : d.scripts.length ≤ d.maxRuns) {names : List String}
    (nonempty : names ≠ []) :
    (d.attributesChanged names).2 =
      (d.recordAll (d.dependencyOrder (d.affected names [])) {}).2 := by
  have more : ¬(Progress.start d names).Over := by
    rintro (empty | cut)
    · exact nonempty empty
    · exact Bool.false_ne_true cut
  have due : (Progress.start d names).due = d.dependencyOrder (d.affected names []) := rfl
  have inside : ∀ s ∈ (Progress.start d names).due, s ∈ c.members := fun s hs => by
    rw [under.frame.members_eq]
    exact (Progress.of_mem_due hs).1
  have fits : (Progress.start d names).due.length ≤ (Progress.start d names).room := by
    have found := (Reach.collect_subperm d.readsName (producedName? d.sheet) names
      (d.members.filter fun s => !([] : List String).contains s.id)).length_le
    have kept := List.length_filter_le (fun s : Script => !([] : List String).contains s.id)
      d.members
    have length : d.members.length = d.scripts.length := List.length_map _
    have all : (Progress.start d names).room = d.maxRuns := Nat.sub_zero _
    rw [due, (dependencyOrder_perm d _).length_eq, all]
    unfold affected
    change (Reach.collect d.readsName _ _ _).length ≤ _
    exact (found.trans kept).trans (length ▸ room)
  have round := Progress.nextRound_of_fits fits
  obtain ⟨touched, cascade⟩ := Underway.foldl_step h wf (p := (Progress.start d names).opened)
    under inside
  have ended : (Progress.start d names).nextRound.Over := Or.inl (by rw [round, touched]; rfl)
  change (runRounds (d.scripts.length + 1) (Progress.start d names)).cascade = _
  rw [Progress.runRounds_succ more, Progress.runRounds_of_over ended, round, cascade]
  rfl

/-- **A change settles a sheet**, if it names something that each script which is not settled reads;
and it leaves what no script computes as it is. -/
theorem Underway.attributesChanged (h : c.Formulas reads) (wf : c.WellFormed)
    (under : Underway c reads d) (room : d.scripts.length ≤ d.maxRuns) {names : List String}
    (told : ∀ s ∈ c.members, c.SettledAt d.sheet s ∨ ∃ name ∈ names, name ∈ reads s) :
    Underway c reads (d.attributesChanged names).2 ∧
      c.Settled (d.attributesChanged names).2.sheet ∧
      ∀ name, (∀ s ∈ c.members, producedName? c.sheet s ≠ some name) →
        (d.attributesChanged names).2.sheet.value? name = d.sheet.value? name := by
  by_cases empty : names = []
  · subst empty
    refine ⟨under, fun s hs => (told s hs).resolve_right ?_, fun _ _ => rfl⟩
    rintro ⟨_, mem, -⟩
    exact absurd mem List.not_mem_nil
  rw [under.attributesChanged_eq h wf room empty]
  have members := under.frame.members_eq
  -- the scripts that run are those that the names reach
  have found : ∀ s, s ∈ d.dependencyOrder (d.affected names []) ↔ d.Reaches names s := fun s => by
    rw [mem_dependencyOrder, mem_affected_nil_iff]
  have inside : ∀ s ∈ d.affected names [], s ∈ c.members := fun s hs => by
    rw [members]
    exact (of_mem_affected hs).1
  have perm := d.dependencyOrder_perm (d.affected names [])
  have nodup : (d.affected names []).Nodup :=
    .of_map _ (under.wellFormed.toKeyed.nodup_affected names [])
  obtain ⟨-, -, under', settled, kept⟩ := under.recordAll h wf (perm.nodup_iff.2 nodup)
    (fun s hs => inside s (perm.mem_iff.1 hs)) (under.ordered h nodup inside) {}
  refine ⟨under', fun s hs => ?_, fun name free =>
    kept name fun s hs => free s (inside s (perm.mem_iff.1 hs))⟩
  by_cases reached : d.Reaches names s
  · exact settled s ((found s).2 reached)
  · -- nothing that it reads has changed, nor has its own attribute
    have hs' : s ∈ d.members := members ▸ hs
    have before : c.SettledAt d.sheet s := by
      refine (told s hs).resolve_right ?_
      rintro ⟨name, mem, read⟩
      exact reached (.direct hs' mem ((under.readsName_iff hs).2 read))
    refine h.settledAt under.frame.sheet under'.frame.sheet hs d.draws (fun name read => ?_)
      fun name made => ?_
    · refine (kept name fun t ht made => reached ?_).symm
      rw [under.frame.producedName?_eq] at made
      exact .through ((found t).1 ht) made hs' ((under.readsName_iff hs).2 read)
    · have own : ∀ t ∈ d.dependencyOrder (d.affected names []),
          producedName? c.sheet t ≠ some name := fun t ht made' => by
        have eq := h.single t (inside t (perm.mem_iff.1 ht)) s hs name made' made
        exact reached ((found s).1 (eq ▸ ht))
      rw [kept name own, before name made]

/-- **A change and a full pass agree.** After a full pass, give attributes that no script computes
new values: then to run what a change of their names reaches leaves the sheet that a full pass
leaves. -/
theorem attributesChanged_eq_recomputeAll (c : Cascade) (reads : Script → List String)
    (wf : c.WellFormed) (h : c.Formulas reads) (room : c.scripts.length ≤ c.maxRuns)
    (news : List (String × Json)) (names : List String)
    (free : ∀ new ∈ news, ∀ s ∈ c.members, producedName? c.sheet s ≠ some new.1)
    (told : ∀ new ∈ news, new.1 ∈ names) :
    ((c.recomputeAll.2.withNews news).attributesChanged names).2.sheet =
      (c.recomputeAll.2.withNews news).recomputeAll.2.sheet := by
  obtain ⟨-, -, under, settled, -⟩ := h.recomputeAll wf (.refl c) wf
  generalize c.recomputeAll.2 = first at under settled
  have changed := under.withNews news
  have room' : (first.withNews news).scripts.length ≤ (first.withNews news).maxRuns := by
    rw [← changed.frame.scripts, ← changed.frame.maxRuns_eq]
    exact room
  -- a script that reads no new value is settled still
  have told' : ∀ s ∈ c.members, c.SettledAt (first.withNews news).sheet s ∨
      ∃ name ∈ names, name ∈ reads s := fun s hs => by
    by_cases read : ∃ new ∈ news, new.1 ∈ reads s
    · obtain ⟨new, mem, read⟩ := read
      exact Or.inr ⟨new.1, told new mem, read⟩
    · refine Or.inl (h.settledAt under.frame.sheet changed.frame.sheet hs first.draws
        (fun name mem => ?_) fun name made => ?_)
      · refine (value?_withNews first news ?_).symm
        rintro new mem' rfl
        exact read ⟨new, mem', mem⟩
      · have own : ∀ new ∈ news, new.1 ≠ name := by
          rintro new mem rfl
          exact free new mem s hs made
        rw [value?_withNews first news own, settled s hs name made]
  obtain ⟨under₁, settled₁, kept₁⟩ := changed.attributesChanged h wf room' told'
  obtain ⟨-, -, under₂, settled₂, kept₂⟩ := h.recomputeAll wf changed.frame changed.wellFormed
  refine h.settled_unique under₁.frame.sheet under₂.frame.sheet settled₁ settled₂ ?_
  intro name free
  rw [kept₁ name free, kept₂ name free]

/-- They agree on a sheet with a chain of two formulas. -/
theorem mirrored_attributesChanged_eq_recomputeAll :
    mirrored.WellFormed ∧ mirrored.Formulas (fun script => [mirroredName script]) ∧
      mirrored.scripts.length ≤ mirrored.maxRuns ∧
      ((mirrored.recomputeAll.2.withNews [("A", .bool false)]).attributesChanged
          ["A", "A"]).2.sheet =
        (mirrored.recomputeAll.2.withNews [("A", .bool false)]).recomputeAll.2.sheet := by
  have room : mirrored.scripts.length ≤ mirrored.maxRuns := by decide
  refine ⟨wellFormed_mirrored, formulas_mirrored, room,
    attributesChanged_eq_recomputeAll mirrored _ wellFormed_mirrored formulas_mirrored room
      [("A", .bool false)] ["A", "A"] (fun new mem => ?_) fun new mem => ?_⟩
  · obtain rfl := List.mem_singleton.1 mem
    decide
  · obtain rfl := List.mem_singleton.1 mem
    exact List.mem_cons_self

end SheetScript.Cascade
