import Mathlib.Data.List.Forall2
import SheetScript.Proofs.Host.Failure
import SheetScript.Proofs.Run.FirstWrites

/-!
# What the host is told of writes

The list of ids in the result of a run is all that a host learns about what the run wrote. It can
rely on the list: an attribute that is not on it is as it was.

* `Engine.Lists`: the list in a result is what waits in the context that is left.
  `Engine.runScript_lists` and `Engine.runEvent_lists` say it of stored scripts.
* `Sheet.ChangedOnly` relates a sheet to one that differs in attributes on a list;
  `Sheet.changedOnly_commit` is the commit of writes.
* `Runner.Built` are the runners that there are, and `Runner.changedOnly_run` is what a request does
  to their sheets.
* `told_exactly_what_was_written` puts this together with the runs of programs.
-/

namespace SheetScript

/-! ## Stored scripts -/

theorem Context.Balanced.orScript {c : Context} {sheet : Sheet} (h : c.Balanced sheet)
    (id : String) : (c.orScript id).Balanced sheet ∧ (c.orScript id).effects = c.effects := by
  unfold Context.orScript
  split
  · exact ⟨h, rfl⟩
  · exact ⟨h.unmarked ⟨rfl, rfl, rfl, rfl⟩, rfl⟩

namespace Engine

variable {c : Context} {sheet : Sheet}

/-- The result of a run lists what waits in the context that the run leaves, each id once. -/
structure Lists (ran : Ran) : Prop where
  nodup : ran.1.effects.modified.Nodup
  agree : ∀ id, id ∈ ran.1.effects.modified ↔ id ∈ ran.2.1.stagedIds

theorem lists_inWorld (e : Engine) {act : World → RunResult × World}
    {watched : List World × (RunResult × World)} (same : watched.2 = act ⟨c, e.subscriptions⟩)
    (tells : World.Tells ⟨c, e.subscriptions⟩ watched) : Lists (e.inWorld c act) := by
  obtain ⟨d, desk, staged⟩ := tells.staged
  have nodup := tells.nodup
  rw [same] at desk staged nodup
  refine ⟨nodup, fun id => ?_⟩
  change _ ↔ id ∈ Entries.keys (act ⟨c, e.subscriptions⟩).2.context.writes
  rw [Context.writes, desk]
  exact staged id

variable (balanced : c.Balanced sheet) (unlisted : c.effects.modified = [])
include balanced unlisted

/-- Nothing is listed where nothing is run. -/
theorem lists_idle (e : Engine) {result : RunResult} (idle : result.effects = {}) :
    Lists (result, c, e) := by
  refine ⟨idle ▸ .nil, fun id => ?_⟩
  rw [idle, ← balanced.agree, unlisted]

/-- **A stored script lists what it leaves waiting**, whether it runs or not. -/
theorem runScript_lists (e : Engine) (script : Script) : Lists (e.runScript script c) := by
  obtain ⟨named, same⟩ := balanced.orScript script.id
  have unlisted' : (c.orScript script.id).effects.modified = [] := same ▸ unlisted
  unfold runScript
  split_ifs
  · exact lists_idle balanced unlisted e rfl
  · dsimp only
    generalize e.program? script.id script.source = found
    rcases found with ⟨err | p, e'⟩
    · exact lists_idle named unlisted' e' rfl
    · exact lists_inWorld _ (p.watch_eq _ _) (p.tells_watch _ named unlisted')

theorem runEvent_lists (e : Engine) (script : Script) (event : String) (args : List Value) :
    Lists (e.runEvent script event args c) := by
  obtain ⟨named, same⟩ := balanced.orScript script.id
  have unlisted' : (c.orScript script.id).effects.modified = [] := same ▸ unlisted
  unfold runEvent handle
  split_ifs
  · exact lists_idle balanced unlisted e rfl
  · dsimp only
    generalize e.program? script.id script.source = found
    rcases found with ⟨err | p, e'⟩
    · exact lists_idle named unlisted' e' rfl
    · dsimp only
      cases p.function? event with
      | none => exact lists_idle named unlisted' e' rfl
      | some f =>
        exact lists_inWorld e' (p.watchEvent_eq _ _ _ _) (p.tells_watchEvent _ named unlisted' _ _)

end Engine

/-! ## Sheets that differ where a list says -/

namespace Attribute

variable {ids more : List String} {a b d : Attribute}

/-- An attribute is as it was, or it is on the list and has a new value. -/
def ChangedOnly (ids : List String) (a b : Attribute) : Prop :=
  b = a ∨ a.id ∈ ids ∧ ∃ value, b = { a with value := value }

theorem ChangedOnly.mono (h : a.ChangedOnly ids b) (within : ∀ id ∈ ids, id ∈ more) :
    a.ChangedOnly more b := h.imp_right fun ⟨listed, value⟩ => ⟨within _ listed, value⟩

theorem ChangedOnly.trans (h : a.ChangedOnly ids b) (h' : b.ChangedOnly ids d) :
    a.ChangedOnly ids d := by
  rcases h with rfl | ⟨listed, value, rfl⟩
  · exact h'
  · rcases h' with rfl | ⟨-, value', rfl⟩
    · exact .inr ⟨listed, value, rfl⟩
    · exact .inr ⟨listed, value', rfl⟩

end Attribute

namespace Sheet

variable {ids more : List String} {s t u : Sheet}

/-- A sheet has the frame of another, and differs from it in attributes on the list only. -/
structure ChangedOnly (ids : List String) (s t : Sheet) : Prop where
  frame : s.SameFrame t
  attributes : List.Forall₂ (Attribute.ChangedOnly ids) s.attributes t.attributes

theorem ChangedOnly.refl (ids : List String) (s : Sheet) : ChangedOnly ids s s :=
  ⟨.refl s, List.forall₂_same.2 fun _ _ => .inl rfl⟩

theorem ChangedOnly.mono (h : ChangedOnly ids s t) (within : ∀ id ∈ ids, id ∈ more) :
    ChangedOnly more s t := ⟨h.frame, h.attributes.imp fun _ _ changed => changed.mono within⟩

theorem forall₂_changedOnly_trans {l l' l'' : List Attribute}
    (h : List.Forall₂ (Attribute.ChangedOnly ids) l l')
    (h' : List.Forall₂ (Attribute.ChangedOnly ids) l' l'') :
    List.Forall₂ (Attribute.ChangedOnly ids) l l'' := by
  induction h generalizing l'' with
  | nil => exact h'
  | cons first _ ih =>
    cases h' with
    | cons second later => exact .cons (first.trans second) (ih later)

theorem ChangedOnly.trans (h : ChangedOnly ids s t) (h' : ChangedOnly ids t u) :
    ChangedOnly ids s u :=
  ⟨h.frame.trans h'.frame, forall₂_changedOnly_trans h.attributes h'.attributes⟩

theorem changedOnly_setById (s : Sheet) (id : String) (value : Json) :
    ChangedOnly [id] s (s.setById id value) := by
  refine ⟨sameFrame_setById s id value, ?_⟩
  unfold setById
  dsimp only
  induction s.attributes with
  | nil => exact .nil
  | cons a rest ih =>
    rw [setFirst]
    split_ifs with found
    · have listed : a.id ∈ [id] := List.mem_singleton.2 (beq_iff_eq.1 found)
      exact .cons (.inr ⟨listed, value, rfl⟩) (List.forall₂_same.2 fun _ _ => .inl rfl)
    · exact .cons (.inl rfl) ih

/-- **A commit changes attributes that writes wait for**, and nothing else. -/
theorem changedOnly_commit (s : Sheet) (writes : Entries Json) :
    ChangedOnly (Entries.keys writes) s (s.commit writes) := by
  induction writes generalizing s with
  | nil => exact .refl [] s
  | cons write rest ih =>
    have first : ChangedOnly (Entries.keys (write :: rest)) s (s.setById write.1 write.2) :=
      (changedOnly_setById s write.1 write.2).mono fun id mem =>
        List.mem_singleton.1 mem ▸ List.mem_cons_self
    exact first.trans ((ih _).mono fun id mem => List.mem_cons_of_mem _ mem)

end Sheet

/-! ## Requests -/

namespace Runner

variable {r : Runner} {q : RunRequest} {sheet : Sheet}

/-- The runners that there are. The engine of a runner is also in the hands of others. -/
inductive Built : Runner → Prop
  | new (engine : Engine) : Built (Runner.new engine)
  | addSheet {r : Runner} (built : Built r) (s : Sheet) : Built (r.addSheet s)
  | addChart {r : Runner} (built : Built r) (c : Chart) : Built (r.addChart c)
  | engine {r : Runner} (built : Built r) (engine : Engine) : Built { r with engine := engine }
  | draws {r : Runner} (built : Built r) (draws : Draws) : Built { r with draws := draws }
  | run {r : Runner} (built : Built r) (q : RunRequest) : Built (r.run q).2

/-- Each sheet is kept under the id of its character. -/
def Keyed (r : Runner) : Prop := ∀ id sheet, r.sheet? id = some sheet → sheet.characterId = id

theorem Keyed.addSheet (h : r.Keyed) (s : Sheet) : (r.addSheet s).Keyed := by
  intro id sheet found
  rw [sheet?, Runner.addSheet, Entries.find?_insert] at found
  split_ifs at found with here
  · obtain rfl := Option.some.inj found
    exact here.symm
  · exact h id sheet found

theorem Keyed.commit (h : r.Keyed) (characterId : Option String) (writes : Entries Json) :
    (r.commit characterId writes).Keyed := by
  unfold Runner.commit
  split
  · exact h.addSheet _
  · exact h

theorem Built.keyed (h : r.Built) : r.Keyed := by
  induction h with
  | new engine => exact fun _ _ found => nomatch found
  | addSheet _ s ih => exact ih.addSheet s
  | addChart _ c ih => exact ih
  | engine _ engine ih => exact ih
  | draws _ draws ih => exact ih
  | @run r _ q ih =>
    have keyed : Keyed { r with
        engine := (r.evaluate q).2.2
        draws := (r.evaluate q).2.1.draws } := ih
    unfold Runner.run
    dsimp only
    split_ifs
    · exact keyed.commit _ _
    · exact keyed

/-- The run of a request starts with nothing written. -/
theorem balanced_contextOf (owned : q.characterId.bind r.sheet? = some sheet) :
    (r.contextOf q).Balanced sheet ∧ (r.contextOf q).effects.modified = [] := by
  let start := (Context.forScript q.script).withDraws r.draws
  have installed : (r.forCharacter start q.characterId).Balanced sheet ∧
      (r.forCharacter start q.characterId).effects.modified = [] := by
    obtain ⟨id, named, found⟩ := Option.bind_eq_some_iff.1 owned
    unfold forCharacter
    rw [named]
    dsimp only
    rw [found]
    exact ⟨Context.balanced_install (Context.quiet_of_nothing_lent rfl rfl) sheet rfl, rfl⟩
  unfold contextOf
  refine Cascade.foldl_addChart_cases
    (P := fun c => c.Balanced sheet ∧ c.effects.modified = []) (fun c chart h => ?_) _ _ installed
  exact ⟨h.1.unmarked ⟨rfl, rfl, rfl, rfl⟩, h.2⟩

/-- The run of a request lists what it leaves waiting. -/
theorem evaluate_lists (owned : q.characterId.bind r.sheet? = some sheet) :
    Engine.Lists (r.evaluate q) := by
  obtain ⟨balanced, unlisted⟩ := balanced_contextOf owned
  unfold evaluate
  cases q.event with
  | some event => exact Engine.runEvent_lists balanced unlisted r.engine q.script event _
  | none => exact Engine.runScript_lists balanced unlisted r.engine q.script

theorem modified_ofResult (result : RunResult) :
    (RunReply.ofResult result).modified.getD [] = result.effects.modified := by
  unfold RunReply.ofResult
  dsimp only
  cases result.effects.modified with
  | nil => rfl
  | cons first rest => rfl

/-- The sheet of a character after a commit. -/
theorem sheet?_commit (keyed : r.Keyed) {key : String} (found : r.sheet? key = some sheet)
    (writes : Entries Json) (id : String) : (r.commit (some key) writes).sheet? id =
      if id = key then some (sheet.commit writes) else r.sheet? id := by
  have frame := Sheet.sameFrame_commit sheet writes
  unfold Runner.commit
  rw [Option.bind_some, found]
  change Entries.find? (Entries.insert r.sheets (sheet.commit writes).characterId _) id = _
  rw [← frame.character, keyed key sheet found, Entries.find?_insert]
  rfl

/-- Without a sheet there is nothing to bring the writes to. -/
theorem commit_of_none {characterId : Option String} (none : characterId.bind r.sheet? = none)
    (writes : Entries Json) : r.commit characterId writes = r := by
  rw [Runner.commit, none]

theorem changedOnly_sheets_refl (ids : List String) (r : Runner) (id : String) :
    Option.Rel (Sheet.ChangedOnly ids) (r.sheet? id) (r.sheet? id) := by
  cases r.sheet? id with
  | none => exact .none
  | some sheet => exact .some (.refl ids sheet)

/-- **A request that succeeds changes attributes that it lists**, of its own character only. -/
theorem changedOnly_run (built : r.Built) (ok : (r.run q).1.error = none) (id : String) :
    Option.Rel (Sheet.ChangedOnly ((r.run q).1.modified.getD [])) (r.sheet? id)
      ((r.run q).2.sheet? id) ∧
    (q.characterId ≠ some id → (r.run q).2.sheet? id = r.sheet? id) := by
  have lists : ∀ sheet, q.characterId.bind r.sheet? = some sheet → Engine.Lists (r.evaluate q) :=
    fun _ => evaluate_lists
  unfold run at ok ⊢
  generalize r.evaluate q = ran at lists ok ⊢
  obtain ⟨result, context, engine⟩ := ran
  have reached : result.ok = true := Option.isNone_iff_eq_none.2 (Option.map_eq_none_iff.1 ok)
  dsimp only
  rw [if_pos reached, modified_ofResult]
  cases owned : q.characterId.bind r.sheet? with
  | none =>
    rw [commit_of_none (r := { r with engine := engine, draws := context.draws }) owned]
    exact ⟨changedOnly_sheets_refl _ r id, fun _ => rfl⟩
  | some sheet =>
    obtain ⟨key, named, found⟩ := Option.bind_eq_some_iff.1 owned
    rw [named, sheet?_commit ((built.engine engine).draws context.draws).keyed found]
    split_ifs with own
    · have listed := (Sheet.changedOnly_commit sheet context.writes).mono
        fun id staged => ((lists sheet owned).agree id).2 staged
      rw [own, found]
      exact ⟨.some listed, fun other => absurd rfl other⟩
    · exact ⟨changedOnly_sheets_refl _ r id, fun _ => rfl⟩

end Runner

/-! ## Exactly what was written -/

/-- **The host is told exactly what a run wrote.** A run may own a sheet and find nothing listed at
its start, and all that the host lends may leave the list alone. Then, whether or not the run
fails, the list in its result has no id twice, has the ids in the order in which their first writes
were staged, one at a time, and has those that are staged when the run ends; and watching the
run for this comes to the run itself. The same holds of the run of an event. When a request to a
runner succeeds, each attribute of each sheet is as it was, or is on the list and has a new value;
the sheets of other characters are as they were. -/
theorem told_exactly_what_was_written :
    (∀ (p : Program) (limits : Limits) (c : Context) (sheet : Sheet) (s : Subscriptions),
      c.Quiet → c.effects.modified = [] →
      (World.Tells ⟨c.install sheet, s⟩ (p.watch limits ⟨c.install sheet, s⟩) ∧
        (p.watch limits ⟨c.install sheet, s⟩).2 = p.run limits ⟨c.install sheet, s⟩) ∧
      ∀ (name : String) (args : List Value),
        World.Tells ⟨c.install sheet, s⟩ (p.watchEvent limits name args ⟨c.install sheet, s⟩) ∧
        (p.watchEvent limits name args ⟨c.install sheet, s⟩).2 =
          p.runEvent limits name args ⟨c.install sheet, s⟩) ∧
    ∀ (r : Runner) (q : RunRequest), r.Built → (r.run q).1.error = none → ∀ id,
      Option.Rel (Sheet.ChangedOnly ((r.run q).1.modified.getD [])) (r.sheet? id)
        ((r.run q).2.sheet? id) ∧
      (q.characterId ≠ some id → (r.run q).2.sheet? id = r.sheet? id) := by
  refine ⟨fun p limits c sheet s quiet unlisted => ?_, fun r q built ok id =>
    Runner.changedOnly_run built ok id⟩
  have balanced := Context.balanced_install quiet sheet unlisted
  exact ⟨⟨p.tells_watch limits balanced unlisted, p.watch_eq limits _⟩, fun name args =>
    ⟨p.tells_watchEvent limits balanced unlisted name args, p.watchEvent_eq limits name args _⟩⟩

/-! ## A script that writes out of order -/

/-- The statement that sets an attribute. -/
def setAttribute (line : Nat) (name value : String) : Stmt :=
  .expression line (.call (.property
    (.call (.property (.variable "Owner") "Attribute") [.string name]) "set") [.string value])

/-- A program that writes one attribute, then another, then the first again. -/
def outOfOrder : Program :=
  ⟨[setAttribute 1 "B" "new", setAttribute 2 "A" "new", setAttribute 3 "B" "newer"]⟩

/-- A sheet with three attributes. -/
def threeAttributes : Sheet :=
  { characterId := "char-1", rulesetId := "r1",
    attributes := [⟨"a", "A", .string "old"⟩, ⟨"b", "B", .string "old"⟩, ⟨"c", "C", .null⟩] }

/-- The program as a stored script. -/
def outOfOrderScript : Script :=
  .new "s" "r1" .attr (some "a")
    ("Owner.Attribute(\"B\").set(\"new\")\nOwner.Attribute(\"A\").set(\"new\")\n" ++
      "Owner.Attribute(\"B\").set(\"newer\")")

/-- A request to run it for the character of the sheet. -/
def outOfOrderRequest : RunRequest :=
  { script := outOfOrderScript, event := none, characterId := some "char-1" }

/-- A runner with the sheet. -/
def threeAttributesRunner : Runner := (Runner.new (.new {})).addSheet threeAttributes

theorem quiet_echoing : echoing.Quiet := by
  rintro act (⟨f, lent, args, rfl⟩ | ⟨o, lent, -⟩) e
  · obtain rfl := List.mem_singleton.1 lent
    rfl
  · exact absurd lent List.not_mem_nil

/-- The program lists the attributes as it writes them, and a request for it changes no other. -/
theorem out_of_order_told : echoing.Quiet ∧ echoing.effects.modified = [] ∧
    World.Tells ⟨echoing.install threeAttributes, {}⟩
      (outOfOrder.watch {} ⟨echoing.install threeAttributes, {}⟩) ∧
    (outOfOrder.run {} ⟨echoing.install threeAttributes, {}⟩).1.effects.modified = ["b", "a"] ∧
    threeAttributesRunner.Built ∧
    (threeAttributesRunner.run outOfOrderRequest).1.error = none ∧
    (threeAttributesRunner.run outOfOrderRequest).1.modified = some ["b", "a"] ∧
    Option.Rel (Sheet.ChangedOnly ["b", "a"]) (threeAttributesRunner.sheet? "char-1")
      ((threeAttributesRunner.run outOfOrderRequest).2.sheet? "char-1") := by
  have built : threeAttributesRunner.Built := .addSheet (.new _) _
  have reply : (fun reply : RunReply => (reply.error, reply.modified))
      (threeAttributesRunner.run outOfOrderRequest).1 = (none, some ["b", "a"]) := by
    decide +kernel
  obtain ⟨ok, listed⟩ := Prod.mk.inj reply
  obtain ⟨runs, requests⟩ := told_exactly_what_was_written
  have changed := (requests threeAttributesRunner outOfOrderRequest built ok "char-1").1
  have order : (outOfOrder.run {} ⟨echoing.install threeAttributes, {}⟩).1.effects.modified =
      ["b", "a"] := by decide +kernel
  rw [listed, Option.getD_some] at changed
  exact ⟨quiet_echoing, rfl, (runs outOfOrder {} echoing threeAttributes {} quiet_echoing rfl).1.1,
    order, built, ok, listed, changed⟩

end SheetScript
