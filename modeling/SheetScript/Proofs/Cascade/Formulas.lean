import Mathlib.Data.Fintype.EquivFin
import Mathlib.Order.WellFounded
import SheetScript.Proofs.Cascade.DependencyOrder

/-!
# Scripts as formulas

When scripts always succeed, write to no attribute but their own, and compute a value from the
attributes that they subscribe to, they are formulas, and a sheet is settled when each attribute
that is computed holds the value of its formula. Without cycles, there is one settled sheet for the
values of the other attributes.

* `Cascade.Formulas` says that the scripts of a cascade are formulas of that kind.
* `Formulas.settled_unique`: two settled sheets that agree where nothing is computed are equal.
* `Cascade.recomputeAll_settles`: to recompute all settles the sheet, and leaves the other
  attributes as they are.
-/

namespace SheetScript.Cascade

open Relation

variable {c d : Cascade} {reads : Script → List String} {script : Script}

/-- The cascade with another sheet and another source of draws. -/
def onSheet (c : Cascade) (sheet : Sheet) (draws : Draws) : Cascade :=
  { c with sheet := sheet, draws := draws }

/-- The value that a script computes on a sheet, as the sheet stores it. -/
def valueOn (c : Cascade) (sheet : Sheet) (draws : Draws) (script : Script) : Json :=
  ((c.onSheet sheet draws).evaluate script).1.value.toJson

/-- The scripts of a cascade are formulas without cycles: each reads a fixed set of names. What is
said of runs is said of every sheet of the same frame, whatever is drawn. -/
structure Formulas (c : Cascade) (reads : Script → List String) : Prop where
  /-- No two attributes have one name. -/
  names : c.sheet.names.Nodup
  enabled : ∀ script ∈ c.members, script.enabled
  /-- Each script computes an attribute of the sheet. -/
  attached : ∀ script ∈ c.members, ∃ id, script.entityId = some id ∧ (c.sheet.byId? id).isSome
  /-- No two compute the same one. -/
  apart : ∀ s ∈ c.members, ∀ t ∈ c.members, s.entityId = t.entityId → s = t
  succeeds : ∀ sheet draws, c.sheet.SameFrame sheet → ∀ script ∈ c.members,
    ((c.onSheet sheet draws).evaluate script).1.failure = none
  /-- No script writes an attribute through its sheet. -/
  quiet : ∀ sheet draws, c.sheet.SameFrame sheet → ∀ script ∈ c.members,
    ((c.onSheet sheet draws).evaluate script).1.effects.modified = []
  /-- After a run, a script is subscribed to the names that it reads. -/
  subscribes : ∀ sheet draws, c.sheet.SameFrame sheet → ∀ script ∈ c.members, ∀ name,
    name ∈ ((c.onSheet sheet draws).evaluate script).2.2.subscribed script ↔ name ∈ reads script
  /-- The value depends on the attributes of these names alone. -/
  determined : ∀ sheet sheet', c.sheet.SameFrame sheet → c.sheet.SameFrame sheet' →
    ∀ script ∈ c.members, (∀ name ∈ reads script, sheet.value? name = sheet'.value? name) →
    ∀ draws draws', c.valueOn sheet draws script = c.valueOn sheet' draws' script
  /-- No script reads what it computes itself, be it through others. -/
  acyclic : ∀ script, ¬TransGen (DependsOn c.sheet reads c.members) script script

/-- A script's attribute holds the value that the script computes. -/
def SettledAt (c : Cascade) (sheet : Sheet) (script : Script) : Prop :=
  ∀ name, producedName? c.sheet script = some name →
    ∀ draws, sheet.value? name = some (c.valueOn sheet draws script)

/-- The attributes of all scripts hold the values that the scripts compute. -/
def Settled (c : Cascade) (sheet : Sheet) : Prop := ∀ script ∈ c.members, c.SettledAt sheet script

/-! ## Runs on a sheet -/

/-- What a script does in a cascade depends on its frame, its sheet and the draws to come, not on
what ran before. -/
theorem evaluate_alike (wf : c.WellFormed) (frame : c.SameFrame d) (wf' : d.WellFormed)
    (mem : script ∈ c.members) :
    (d.evaluate script).1 = ((c.onSheet d.sheet d.draws).evaluate script).1 ∧
      (script.enabled → ∀ name, name ∈ (d.evaluate script).2.2.subscribed script ↔
        name ∈ ((c.onSheet d.sheet d.draws).evaluate script).2.2.subscribed script) := by
  have context : d.contextOf script = (c.onSheet d.sheet d.draws).contextOf script := by
    unfold contextOf onSheet
    rw [frame.charts]
  have mem' : script ∈ d.members := frame.members_eq ▸ mem
  obtain ⟨result, -, subscribed⟩ := Engine.runScript_alike
    (d.contextOf_own script) frame.config.symm (wf'.faithful _ mem') (wf.faithful _ mem)
  refine ⟨?_, fun enabled name => ?_⟩
  · unfold evaluate
    dsimp only
    rw [← context]
    exact result
  · unfold Cascade.subscribed
    rw [evaluate_cascade, evaluate_cascade]
    unfold engineAfter
    dsimp only
    rw [← context, subscribed enabled]
    exact Iff.rfl

namespace Formulas

variable (h : c.Formulas reads)
include h

/-- Each name has one script that produces it. -/
theorem single : ∀ s ∈ c.members, ∀ t ∈ c.members, ∀ name, producedName? c.sheet s = some name →
    producedName? c.sheet t = some name → s = t := by
  intro s hs t ht name made made'
  refine h.apart s hs t ht ?_
  obtain ⟨id, entity, made⟩ := Option.bind_eq_some_iff.1 made
  obtain ⟨id', entity', made'⟩ := Option.bind_eq_some_iff.1 made'
  obtain ⟨a, found, rfl⟩ := Option.map_eq_some_iff.1 made
  obtain ⟨b, found', name_eq⟩ := Option.map_eq_some_iff.1 made'
  have same : b = a := List.inj_on_of_nodup_map h.names (List.mem_of_find?_eq_some found')
    (List.mem_of_find?_eq_some found) name_eq
  rw [entity, entity', ← Sheet.id_of_byId? found, ← Sheet.id_of_byId? found', same]

/-- A script is settled once its attribute holds what it computes on a sheet that agrees on what it
reads. -/
theorem settledAt {sheet sheet' : Sheet} (frame : c.sheet.SameFrame sheet)
    (frame' : c.sheet.SameFrame sheet') (mem : script ∈ c.members) (draws : Draws)
    (same : ∀ name ∈ reads script, sheet.value? name = sheet'.value? name)
    (value : ∀ name, producedName? c.sheet script = some name →
      sheet'.value? name = some (c.valueOn sheet draws script)) : c.SettledAt sheet' script := by
  intro name made draws'
  rw [value name made, h.determined sheet sheet' frame frame' script mem same draws draws']

/-- To prove something of all scripts, take it for granted of those that a script depends on. -/
theorem induction {P : Script → Prop}
    (step : ∀ s ∈ c.members, (∀ t, DependsOn c.sheet reads c.members s t → P t) → P s) :
    ∀ s ∈ c.members, P s := by
  let below (s t : {s // s ∈ c.members}) : Prop :=
    TransGen (DependsOn c.sheet reads c.members) t.1 s.1
  have trans : IsTrans _ below := ⟨fun _ _ _ first second => second.trans first⟩
  have irrefl : Std.Irrefl below := ⟨fun s => h.acyclic s.1⟩
  have wf : WellFounded below := Finite.wellFounded_of_trans_of_irrefl below
  intro s hs
  have all : ∀ s : {s // s ∈ c.members}, P s.1 := fun s => by
    induction s using wf.induction with
    | h s ih => exact step s.1 s.2 fun t depends => ih ⟨t, depends.2.1⟩ (.single depends)
  exact all ⟨s, hs⟩

/-- **One settled sheet.** Sheets that are settled and agree where nothing is computed are equal. -/
theorem settled_unique {sheet sheet' : Sheet} (frame : c.sheet.SameFrame sheet)
    (frame' : c.sheet.SameFrame sheet') (settled : c.Settled sheet) (settled' : c.Settled sheet')
    (rest : ∀ name, (∀ s ∈ c.members, producedName? c.sheet s ≠ some name) →
      sheet.value? name = sheet'.value? name) : sheet = sheet' := by
  have computed : ∀ s ∈ c.members, ∀ name, producedName? c.sheet s = some name →
      sheet.value? name = sheet'.value? name := by
    refine h.induction fun s hs ih name made => ?_
    rw [settled s hs name made c.draws, settled' s hs name made c.draws]
    refine congrArg some (h.determined sheet sheet' frame frame' s hs (fun n read => ?_) _ _)
    by_cases free : ∀ t ∈ c.members, producedName? c.sheet t ≠ some n
    · exact rest n free
    · push Not at free
      obtain ⟨t, ht, made⟩ := free
      exact ih t ⟨hs, ht, n, read, made⟩ n made
  refine (frame.symm.trans frame').ext (frame.names_eq ▸ h.names) fun name => ?_
  by_cases free : ∀ s ∈ c.members, producedName? c.sheet s ≠ some name
  · exact rest name free
  · push Not at free
    obtain ⟨s, hs, made⟩ := free
    exact computed s hs name made

end Formulas

/-! ## A computation under way -/

/-- The scripts of a cascade are being run: what they read is registered. -/
structure Underway (c : Cascade) (reads : Script → List String) (d : Cascade) : Prop where
  frame : c.SameFrame d
  wellFormed : d.WellFormed
  subscribed : ∀ script ∈ c.members, ∀ name, name ∈ d.subscribed script ↔ name ∈ reads script

/-- A run registers what the script reads, and leaves the other scripts as they are. -/
theorem Formulas.subscribed_evaluate (h : c.Formulas reads) (wf : c.WellFormed)
    (frame : c.SameFrame d) (wf' : d.WellFormed) (mem : script ∈ c.members) {other : Script}
    (other_mem : other ∈ c.members)
    (before : other = script ∨ ∀ name, name ∈ d.subscribed other ↔ name ∈ reads other)
    (name : String) :
    name ∈ (d.evaluate script).2.2.subscribed other ↔ name ∈ reads other := by
  by_cases eq : other = script
  · subst eq
    rw [(evaluate_alike wf frame wf' mem).2 (h.enabled _ mem)]
    exact h.subscribes _ _ frame.sheet _ mem name
  · have apart : other.id ≠ script.id := fun same => eq (wf.toKeyed.eq_of_id other_mem mem same)
    have kept := (d.engineAfter_registry script other.id apart name).1
    exact kept.trans (before.resolve_left eq name)

/-- A formula writes nothing, whatever has run before it. -/
theorem Underway.modified_eq_nil (h : c.Formulas reads) (wf : c.WellFormed)
    (under : Underway c reads d) (mem : script ∈ c.members) :
    (d.evaluate script).1.effects.modified = [] := by
  rw [(evaluate_alike wf under.frame under.wellFormed mem).1]
  exact h.quiet _ _ under.frame.sheet _ mem

/-- What recording the run of a formula does. -/
theorem Underway.record (h : c.Formulas reads) (wf : c.WellFormed) (under : Underway c reads d)
    (mem : script ∈ c.members) (report : CascadeReport) :
    (d.record script report).1 = [] ∧
      (d.record script report).2.1.recomputed = report.recomputed ++ [script.id] ∧
      (d.record script report).2.1.failures = report.failures ∧
      Underway c reads (d.record script report).2.2 ∧
      ∀ name, (d.record script report).2.2.sheet.value? name =
        if producedName? c.sheet script = some name then some (c.valueOn d.sheet d.draws script)
        else d.sheet.value? name := by
  have frame := under.frame
  have same := (evaluate_alike wf frame under.wellFormed mem).1
  have quiet := under.modified_eq_nil h wf mem
  have next : Underway c reads (d.record script report).2.2 := by
    refine ⟨frame.trans (d.sameFrame_record script report), ?_, fun other other_mem name => ?_⟩
    · exact under.wellFormed.record (frame.members_eq ▸ mem) report
    · rw [Cascade.subscribed, record_engine]
      exact h.subscribed_evaluate wf frame under.wellFormed mem other_mem
        (Or.inr (under.subscribed other other_mem)) name
  rcases d.record_cases script report with ⟨-, changed, eq⟩ | ⟨failed, -⟩
  · rw [eq] at next ⊢
    refine ⟨?_, rfl, rfl, next, fun name => ?_⟩
    · dsimp only [touchedBy, touchedNames]
      rw [quiet]
      rfl
    · obtain ⟨id, entity, -⟩ := h.attached script mem
      have distinct : d.sheet.names.Nodup := frame.sheet.names_eq ▸ h.names
      have stored : d.sheetAfter script =
          d.sheet.setById id (c.valueOn d.sheet d.draws script) := by
        unfold sheetAfter settle storeValue
        rw [evaluate_writes_eq_nil quiet, entity, same]
        rfl
      have made : producedName? c.sheet script = d.sheet.nameOf? id := by
        rw [frame.producedName?_eq, producedName?, entity]
        rfl
      change (d.sheetAfter script).value? name = _
      rw [stored, Sheet.value?_setById distinct, made]
  · exfalso
    rw [same] at failed
    exact failed (h.succeeds _ _ frame.sheet _ mem)

/-- **Running formulas in order settles them**, and changes nothing that they do not compute. -/
theorem Underway.recordAll (h : c.Formulas reads) (wf : c.WellFormed) (under : Underway c reads d)
    {order : List Script} (distinct : order.Nodup) (mem : ∀ s ∈ order, s ∈ c.members)
    (ordered : order.Pairwise fun s t => ¬DependsOn c.sheet reads c.members s t)
    (report : CascadeReport) :
    (d.recordAll order report).1.recomputed = report.recomputed ++ order.map (·.id) ∧
      (d.recordAll order report).1.failures = report.failures ∧
      Underway c reads (d.recordAll order report).2 ∧
      (∀ s ∈ order, c.SettledAt (d.recordAll order report).2.sheet s) ∧
      ∀ name, (∀ s ∈ order, producedName? c.sheet s ≠ some name) →
        (d.recordAll order report).2.sheet.value? name = d.sheet.value? name := by
  induction order generalizing d report with
  | nil =>
    refine ⟨(List.append_nil _).symm, rfl, under, fun s hs => ?_, fun _ _ => rfl⟩
    exact absurd hs List.not_mem_nil
  | cons s rest ih =>
    obtain ⟨first, distinct⟩ := List.nodup_cons.1 distinct
    obtain ⟨alone, ordered⟩ := List.pairwise_cons.1 ordered
    have hs := mem s List.mem_cons_self
    have later : ∀ t ∈ rest, t ∈ c.members := fun t ht => mem t (List.mem_cons_of_mem _ ht)
    obtain ⟨-, recomputed, failures, next, values⟩ := under.record h wf hs report
    obtain ⟨recomputed', failures', under', settled, kept⟩ :=
      ih next distinct later ordered (d.record s report).2.1
    rw [recordAll_cons]
    generalize (d.record s report).2.2.recordAll rest (d.record s report).2.1 = out at *
    have unproduced : ∀ name, (∀ t ∈ s :: rest, producedName? c.sheet t ≠ some name) →
        out.2.sheet.value? name = d.sheet.value? name := fun name free => by
      rw [kept name fun t ht => free t (List.mem_cons_of_mem _ ht), values,
        if_neg (free s List.mem_cons_self)]
    refine ⟨?_, failures'.trans failures, under', fun t ht => ?_, unproduced⟩
    · rw [recomputed', recomputed, List.append_assoc]
      rfl
    · rcases List.mem_cons.1 ht with rfl | ht
      · -- neither it nor what runs from here on produces what it reads
        refine h.settledAt under.frame.sheet under'.frame.sheet hs d.draws (fun name read => ?_)
          fun name made => ?_
        · refine (unproduced name fun u hu made => ?_).symm
          have depends : DependsOn c.sheet reads c.members t u := ⟨hs, mem u hu, name, read, made⟩
          rcases List.mem_cons.1 hu with rfl | hu
          · exact h.acyclic _ (.single depends)
          · exact alone u hu depends
        · have apart : ∀ u ∈ rest, producedName? c.sheet u ≠ some name := fun u hu made' =>
            first (h.single t hs u (later u hu) name made made' ▸ hu)
          rw [kept name apart, values, if_pos made]
      · exact settled t ht

/-- The order of formulas is one in which none depends on a later one. -/
theorem Underway.ordered (h : c.Formulas reads) (under : Underway c reads d)
    {scripts : List Script} (distinct : scripts.Nodup) (mem : ∀ s ∈ scripts, s ∈ c.members) :
    (d.dependencyOrder scripts).Pairwise fun s t => ¬DependsOn c.sheet reads c.members s t := by
  have single : ∀ t ∈ scripts, ∀ u ∈ scripts, ∀ name, producedName? d.sheet t = some name →
      producedName? d.sheet u = some name → t = u := fun t ht u hu name made made' => by
    rw [← under.frame.producedName?_eq] at made made'
    exact h.single t (mem t ht) u (mem u hu) name made made'
  have same : ∀ s ∈ scripts, ∀ t ∈ scripts, DependsOn d.sheet d.subscribed scripts s t ↔
      DependsOn c.sheet reads c.members s t := by
    intro s hs t ht
    simp only [DependsOn, hs, ht, mem s hs, mem t ht, true_and,
      under.subscribed s (mem s hs), under.frame.producedName?_eq]
  have acyclic : ∀ s, ¬TransGen (DependsOn d.sheet d.subscribed scripts) s s := fun s cycle =>
    h.acyclic s (TransGen.mono (fun s t depends =>
      (same s depends.1 t depends.2.1).1 depends) _ _ cycle)
  refine (dependencyOrder_pairwise distinct single acyclic).imp_of_mem fun {s t} hs ht free => ?_
  rwa [← same s (mem_dependencyOrder.1 hs) t (mem_dependencyOrder.1 ht)]

/-! ## Recomputing all -/

theorem prime_sheet (c : Cascade) (scripts : List Script) : (c.prime scripts).sheet = c.sheet := by
  induction scripts generalizing c with
  | nil => rfl
  | cons script rest ih => exact ih _

/-- A first pass over the scripts registers what they read. -/
theorem Formulas.subscribed_prime (h : c.Formulas reads) (wf : c.WellFormed)
    (frame : c.SameFrame d) (wf' : d.WellFormed) {scripts : List Script}
    (mem : ∀ s ∈ scripts, s ∈ c.members) {other : Script} (other_mem : other ∈ c.members)
    (before : other ∈ scripts ∨ ∀ name, name ∈ d.subscribed other ↔ name ∈ reads other)
    (name : String) : name ∈ (d.prime scripts).subscribed other ↔ name ∈ reads other := by
  induction scripts generalizing d with
  | nil => exact before.resolve_left List.not_mem_nil name
  | cons script rest ih =>
    have hs := mem script List.mem_cons_self
    refine ih (frame.trans (d.sameFrame_evaluate script)) (wf'.evaluate (frame.members_eq ▸ hs))
      (fun s hs => mem s (List.mem_cons_of_mem _ hs)) ?_
    by_cases later : other ∈ rest
    · exact Or.inl later
    · refine Or.inr fun name => h.subscribed_evaluate wf frame wf' hs other_mem ?_ name
      exact before.imp_left fun mem => (List.mem_cons.1 mem).resolve_right later

theorem Formulas.underway_prime (h : c.Formulas reads) (wf : c.WellFormed) (frame : c.SameFrame d)
    (wf' : d.WellFormed) : Underway c reads (d.prime d.members) where
  frame := frame.trans (d.sameFrame_prime _)
  wellFormed := wf'.prime fun _ mem => mem
  subscribed := fun script mem name => by
    rw [← frame.members_eq]
    exact h.subscribed_prime wf frame wf' (fun _ mem => mem) mem (Or.inl mem) name

/-- What recomputing all formulas comes to, on any sheet of the frame. -/
theorem Formulas.recomputeAll (h : c.Formulas reads) (wf : c.WellFormed) (frame : c.SameFrame d)
    (wf' : d.WellFormed) :
    d.recomputeAll.1.recomputed.Perm (Entries.keys d.scripts) ∧ d.recomputeAll.1.failures = [] ∧
      Underway c reads d.recomputeAll.2 ∧ c.Settled d.recomputeAll.2.sheet ∧
      ∀ name, (∀ s ∈ c.members, producedName? c.sheet s ≠ some name) →
        d.recomputeAll.2.sheet.value? name = d.sheet.value? name := by
  have under := h.underway_prime wf frame wf'
  have members := frame.members_eq
  have nodup := wf'.toKeyed.nodup_members
  have perm := (d.prime d.members).dependencyOrder_perm d.members
  have inside : ∀ s ∈ d.members, s ∈ c.members := fun s hs => by rwa [members]
  obtain ⟨recomputed, failures, under', settled, kept⟩ := under.recordAll h wf
    (perm.nodup_iff.2 nodup) (fun s hs => inside s (perm.mem_iff.1 hs))
    (under.ordered h nodup inside) {}
  refine ⟨?_, failures, under', fun s hs => settled s (perm.mem_iff.2 ?_), fun name free => ?_⟩
  · have ids := perm.map (·.id)
    rw [wf'.toKeyed.map_id_members] at ids
    change ((d.prime d.members).recordAll ((d.prime d.members).dependencyOrder d.members)
      {}).1.recomputed.Perm _
    rw [recomputed]
    exact ids
  · rwa [← members]
  · have eq := kept name fun s hs => free s (inside s (perm.mem_iff.1 hs))
    rwa [prime_sheet] at eq

/-- **To recompute all settles the sheet.** Every script runs once and succeeds; afterwards each
attribute that a script computes holds the value of the script on the sheet as it is then, and the
other attributes are as they were. -/
theorem recomputeAll_settles (c : Cascade) (reads : Script → List String) (wf : c.WellFormed)
    (h : c.Formulas reads) :
    c.recomputeAll.1.recomputed.Perm (Entries.keys c.scripts) ∧ c.recomputeAll.1.failures = [] ∧
      c.sheet.SameFrame c.recomputeAll.2.sheet ∧
      (∀ script ∈ c.members, ∀ name, producedName? c.sheet script = some name →
        c.recomputeAll.2.sheet.value? name =
          some (c.recomputeAll.2.evaluate script).1.value.toJson) ∧
      ∀ name, (∀ script ∈ c.members, producedName? c.sheet script ≠ some name) →
        c.recomputeAll.2.sheet.value? name = c.sheet.value? name := by
  obtain ⟨recomputed, failures, under, settled, kept⟩ := h.recomputeAll wf (.refl c) wf
  refine ⟨recomputed, failures, under.frame.sheet, fun script mem name made => ?_, kept⟩
  rw [settled script mem name made c.recomputeAll.2.draws,
    (evaluate_alike wf under.frame under.wellFormed mem).1]
  rfl

/-! ## A chain of two formulas -/

/-- A script that gives the attribute with an id the value of the one with a name. -/
def mirror (id entity name : String) : Script :=
  .new id "r1" .attr (some entity)
    ("subscribe(\"" ++ name ++ "\")\nOwner.Attribute(\"" ++ name ++ "\").value")

/-- The program of its source. -/
def mirrorProgram (name : String) : Program :=
  ⟨[.expression 1 (.call (.variable "subscribe") [.string name]),
    .expression 2 (.property (.call (.property (.variable "Owner") "Attribute") [.string name])
      "value")]⟩

/-- The tokens of its source, for a name of one letter. -/
def mirrorTokens (name : String) : List Token :=
  [⟨.name "subscribe", "subscribe", 1, 1⟩, ⟨.mark .leftParen, "(", 1, 10⟩,
    ⟨.string name, "\"" ++ name ++ "\"", 1, 11⟩, ⟨.mark .rightParen, ")", 1, 14⟩,
    ⟨.mark .newline, "\\n", 1, 15⟩, ⟨.name "Owner", "Owner", 2, 1⟩, ⟨.mark .dot, ".", 2, 6⟩,
    ⟨.name "Attribute", "Attribute", 2, 7⟩, ⟨.mark .leftParen, "(", 2, 16⟩,
    ⟨.string name, "\"" ++ name ++ "\"", 2, 17⟩, ⟨.mark .rightParen, ")", 2, 20⟩,
    ⟨.mark .dot, ".", 2, 21⟩, ⟨.name "value", "value", 2, 22⟩, ⟨.mark .newline, "", 2, 27⟩,
    ⟨.mark .endOfInput, "", 2, 27⟩]

theorem mirror_program {id entity name : String}
    (tokens : Token.tokenize (mirror id entity name).source = mirrorTokens name) :
    Program.ofSource? (mirror id entity name).source = .ok (mirrorProgram name) := by
  have program : Program.ofTokens? (mirrorTokens name) = .ok (mirrorProgram name) := rfl
  rw [Program.ofSource?, tokens, program]

/-- A sheet with two attributes. -/
def twoAttributes (x y : Json) : Sheet :=
  { characterId := "char-1", rulesetId := "r1", attributes := [⟨"a", "A", x⟩, ⟨"b", "B", y⟩] }

/-- A sheet with three attributes, of which two are to be computed. -/
def chainSheet (x y z : Json) : Sheet :=
  { characterId := "char-1", rulesetId := "r1",
    attributes := [⟨"a", "A", x⟩, ⟨"b", "B", y⟩, ⟨"c", "C", z⟩] }

/-- The second attribute is computed from the first, and the third from the second. By its id, the
script of the third one comes first. -/
def mirrored : Cascade :=
  ((Cascade.new (.new {}) (chainSheet (.bool true) .null .null)).addScript
    (mirror "n" "b" "A")).addScript (mirror "m" "c" "B")

/-- The name that a script of it reads. -/
def mirroredName (script : Script) : String := if script.id == "n" then "A" else "B"

theorem wellFormed_mirrored : mirrored.WellFormed :=
  ((wellFormed_new Subscriptions.inverse_empty _).addScript _).addScript _

theorem mem_members_mirrored {script : Script} :
    script ∈ mirrored.members ↔ script = mirror "m" "c" "B" ∨ script = mirror "n" "b" "A" := by
  rw [show mirrored.members = [mirror "m" "c" "B", mirror "n" "b" "A"] from rfl, List.mem_pair]

theorem eq_chainSheet {sheet : Sheet} (frame : mirrored.sheet.SameFrame sheet) :
    ∃ x y z, sheet = chainSheet x y z := by
  obtain ⟨characterId, rulesetId, attributes, items⟩ := sheet
  obtain ⟨rfl, rfl, rfl, labels⟩ := frame
  obtain ⟨⟨_, _, x⟩, rest, rfl, first, labels⟩ := List.map_eq_cons_iff.1 labels.symm
  obtain ⟨⟨_, _, y⟩, rest, rfl, second, labels⟩ := List.map_eq_cons_iff.1 labels
  obtain ⟨⟨_, _, z⟩, rest, rfl, third, labels⟩ := List.map_eq_cons_iff.1 labels
  obtain rfl := List.map_eq_nil_iff.1 labels
  obtain ⟨rfl, rfl⟩ := Prod.mk.inj first
  obtain ⟨rfl, rfl⟩ := Prod.mk.inj second
  obtain ⟨rfl, rfl⟩ := Prod.mk.inj third
  exact ⟨x, y, z, rfl⟩

/-- Each script gives the value of the attribute that it reads, whatever is drawn. -/
theorem run_mirrorProgram {script : Script} (mem : script ∈ mirrored.members) (x y z : Json)
    (draws : Draws) (limits : Limits) (s : Subscriptions) :
    let c := mirrored.onSheet (chainSheet x y z) draws
    let ran := (mirrorProgram (mirroredName script)).run limits ⟨c.contextOf script, s⟩
    ran.1 = { value := Value.ofJson ((c.sheet.value? (mirroredName script)).getD .null) } ∧
      ran.2.subscriptions = s.registerFor script.id [mirroredName script] := by
  rcases mem_members_mirrored.1 mem with rfl | rfl
  · exact ⟨rfl, rfl⟩
  · exact ⟨rfl, rfl⟩

theorem program_mirrored {script : Script} (mem : script ∈ mirrored.members) :
    script.enabled ∧
      Program.ofSource? script.source = .ok (mirrorProgram (mirroredName script)) := by
  rcases mem_members_mirrored.1 mem with rfl | rfl
  · exact ⟨rfl, mirror_program (by decide)⟩
  · exact ⟨rfl, mirror_program (by decide)⟩

theorem evaluate_mirrored {script : Script} (mem : script ∈ mirrored.members) (x y z : Json)
    (draws : Draws) :
    ((mirrored.onSheet (chainSheet x y z) draws).evaluate script).1 =
        { value := Value.ofJson
            (((chainSheet x y z).value? (mirroredName script)).getD .null) } ∧
      ((mirrored.onSheet (chainSheet x y z) draws).evaluate script).2.2.subscribed script =
        [mirroredName script] := by
  obtain ⟨enabled, program⟩ := program_mirrored mem
  have run := Engine.runScript_eq_of_faithful
    ((mirrored.onSheet (chainSheet x y z) draws).contextOf_own script)
    (wellFormed_mirrored.faithful script mem) enabled
  rw [program] at run
  unfold subscribed
  rw [evaluate_cascade]
  unfold evaluate engineAfter
  dsimp only at run ⊢
  change (mirrored.onSheet (chainSheet x y z) draws).engine.runScript script _ = _ at run
  rw [run]
  unfold Engine.run Engine.inWorld
  dsimp only
  rw [(run_mirrorProgram mem x y z draws _ _).1, (run_mirrorProgram mem x y z draws _ _).2]
  refine ⟨rfl, ?_⟩
  rcases mem_members_mirrored.1 mem with rfl | rfl
  · decide
  · decide

theorem formulas_mirrored : mirrored.Formulas fun script => [mirroredName script] where
  names := by decide
  enabled := fun script mem => (program_mirrored mem).1
  attached := fun script mem => by
    rcases mem_members_mirrored.1 mem with rfl | rfl
    · exact ⟨"c", rfl, rfl⟩
    · exact ⟨"b", rfl, rfl⟩
  apart := by decide
  succeeds := fun sheet draws frame script mem => by
    obtain ⟨x, y, z, rfl⟩ := eq_chainSheet frame
    rw [(evaluate_mirrored mem x y z draws).1]
  quiet := fun sheet draws frame script mem => by
    obtain ⟨x, y, z, rfl⟩ := eq_chainSheet frame
    rw [(evaluate_mirrored mem x y z draws).1]
  subscribes := fun sheet draws frame script mem name => by
    obtain ⟨x, y, z, rfl⟩ := eq_chainSheet frame
    rw [(evaluate_mirrored mem x y z draws).2]
  determined := fun sheet sheet' frame frame' script mem same draws draws' => by
    obtain ⟨x, y, z, rfl⟩ := eq_chainSheet frame
    obtain ⟨x', y', z', rfl⟩ := eq_chainSheet frame'
    unfold valueOn
    rw [(evaluate_mirrored mem x y z draws).1, (evaluate_mirrored mem x' y' z' draws').1,
      same _ (List.mem_singleton_self _)]
  acyclic := fun script cycle => by
    -- the script of the third attribute depends on that of the second, and on nothing else
    have edge : ∀ s ∈ mirrored.members, ∀ t ∈ mirrored.members,
        DependsOn mirrored.sheet (fun script => [mirroredName script]) mirrored.members s t →
        s.id = "m" ∧ t.id = "n" := by decide
    obtain ⟨_, first, -⟩ := TransGen.head'_iff.1 cycle
    obtain ⟨_, -, last⟩ := TransGen.tail'_iff.1 cycle
    have out := (edge _ first.1 _ first.2.1 first).1
    have into := (edge _ last.1 _ last.2.1 last).2
    exact absurd (out.symm.trans into) (by decide)

/-- On that sheet, a full pass leaves the first attribute alone and computes the others, the second
one before the third one. -/
theorem mirrored_recomputeAll_settles :
    mirrored.WellFormed ∧ mirrored.Formulas (fun script => [mirroredName script]) ∧
      DependsOn mirrored.sheet (fun script => [mirroredName script]) mirrored.members
        (mirror "m" "c" "B") (mirror "n" "b" "A") ∧
      mirrored.recomputeAll.1.recomputed.Perm ["m", "n"] ∧
      mirrored.recomputeAll.1.failures = [] ∧
      mirrored.recomputeAll.2.sheet.value? "B" =
        some (mirrored.recomputeAll.2.evaluate (mirror "n" "b" "A")).1.value.toJson ∧
      mirrored.recomputeAll.2.sheet.value? "C" =
        some (mirrored.recomputeAll.2.evaluate (mirror "m" "c" "B")).1.value.toJson ∧
      mirrored.recomputeAll.2.sheet.value? "A" = some (.bool true) := by
  obtain ⟨recomputed, failures, -, settled, kept⟩ :=
    recomputeAll_settles mirrored _ wellFormed_mirrored formulas_mirrored
  refine ⟨wellFormed_mirrored, formulas_mirrored, by decide, recomputed, failures,
    settled _ (mem_members_mirrored.2 (.inr rfl)) "B" rfl,
    settled _ (mem_members_mirrored.2 (.inl rfl)) "C" rfl, kept "A" ?_⟩
  decide

end SheetScript.Cascade
