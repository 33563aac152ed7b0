import Mathlib.Logic.Relation
import SheetScript.Proofs.Entries
import SheetScript.Proofs.Run.Simulation
import SheetScript.Proofs.Run.Subscriptions

/-!
# What a run does to its world

All that a run does to its world is a sequence of a few changes, `World.Change`. What is kept by
each of them is therefore kept by every run, whatever the program is.

* `Program.run_changes`: every run goes by such changes.
* `Program.run_subscriptions`: a run in the context of a script only adds pairs of that script.
* `Program.run_writes`: what is staged for the sheet has been noted as written.
-/

namespace SheetScript

open Relation

/-! ## Steps that go by changes -/

namespace Act

variable {σ α β : Type} {R : σ → σ → Prop}

/-- The state that a step leaves, whether or not it fails. -/
def left (act : Act σ α) (s : σ) : σ :=
  match act s with
  | .ok _ s => s
  | .error _ s => s

theorem bind_ok {act : Act σ α} {f : α → Act σ β} {s s' : σ} {a : α} (run : act s = .ok a s') :
    (act >>= f) s = f a s' := by
  change EStateM.bind act f s = _
  rw [EStateM.bind, run]

theorem get_bind (f : σ → Act σ α) (s : σ) : (get >>= f) s = f s s := rfl

theorem bind_error {act : Act σ α} {f : α → Act σ β} {s s' : σ} {e : ScriptError}
    (run : act s = .error e s') : (act >>= f) s = .error e s' := by
  change EStateM.bind act f s = _
  rw [EStateM.bind, run]

theorem exists_of_bind_eq_ok {act : Act σ α} {f : α → Act σ β} {s s' : σ} {b : β}
    (run : (act >>= f) s = .ok b s') : ∃ a t, act s = .ok a t ∧ f a t = .ok b s' := by
  cases first : act s with
  | ok a t => exact ⟨a, t, rfl, (bind_ok first).symm.trans run⟩
  | error e t =>
    rw [bind_error first] at run
    nomatch run

/-- From every state, a step goes by a sequence of changes. -/
def Goes (R : σ → σ → Prop) (act : Act σ α) : Prop := ∀ s, ReflTransGen R s (act.left s)

theorem goes_pure (a : α) : Goes R (pure a : Act σ α) := fun _ => .refl

theorem goes_throw (e : ScriptError) : Goes R (throw e : Act σ α) := fun _ => .refl

theorem goes_ofExcept (result : Except ScriptError α) :
    Goes R (MonadExcept.ofExcept result : Act σ α) := by
  cases result with
  | ok a => exact goes_pure a
  | error e => exact goes_throw e

theorem goes_modify {f : σ → σ} (h : ∀ s, R s (f s)) : Goes R (modify f : Act σ Unit) :=
  fun s => .single (h s)

theorem goes_get_bind {f : σ → Act σ α} (h : ∀ s, ReflTransGen R s ((f s).left s)) :
    Goes R (get >>= f) := h

theorem Goes.bind {act : Act σ α} {f : α → Act σ β} (h : Goes R act) (hf : ∀ a, Goes R (f a)) :
    Goes R (act >>= f) := by
  intro s
  have first := h s
  change ReflTransGen R s (left (EStateM.bind act f) s)
  unfold left EStateM.bind at *
  cases run : act s with
  | ok a next =>
    rw [run] at first
    exact first.trans (hf a next)
  | error e next =>
    rw [run] at first
    exact first

/-- A step that goes by changes keeps company with itself along them. -/
theorem Goes.alike {act : Act σ α} (h : Goes R act) {start s : σ} (hs : ReflTransGen R start s) :
    Alike (fun s s' => s = s' ∧ ReflTransGen R start s) (act s) (act s) := by
  have path := hs.trans (h s)
  unfold left at path
  cases run : act s with
  | ok a next => exact .ok ⟨rfl, by rwa [run] at path⟩
  | error e next => exact .error ⟨rfl, by rwa [run] at path⟩

end Act

open Act

/-! ## The changes -/

/-- The host has lent a function or an object that does this step. -/
def Context.Lends (c : Context) (act : Act Effects Value) : Prop :=
  (∃ f ∈ c.natives, ∃ args, act = f.call args) ∨
    ∃ o ∈ c.objects, ∃ name args, act = o.call name args

/-- One change that a run makes to its context. -/
inductive Context.Change : Context → Context → Prop
  /-- A message is announced. -/
  | announce (c : Context) (message : String) (id : Option String) :
      Change c { c with effects := c.effects.announce message id }
  /-- A line is logged, on the console too or not. -/
  | log (c : Context) (args : List Value) (console : Array String) :
      Change c { c with effects := c.effects.log args, console := console }
  /-- An identity is handed out. -/
  | identity (c : Context) : Change c { c with fresh := c.fresh + 1 }
  /-- A draw is made. -/
  | draw (c : Context) : Change c (c.withDraws c.draws.next)
  /-- A chart has been read. -/
  | table (c : Context) (name : String) (t : Table) :
      Change c { c with tables := Entries.insert c.tables name t }
  /-- An attribute is written. -/
  | write (c : Context) (id : String) (value : Json) :
      Change c { c with
        desk := c.desk.map (·.write id value)
        effects := c.effects.markModified id }
  /-- The host does something of its own to the effects. -/
  | host (c : Context) (act : Act Effects Value) (lent : c.Lends act) :
      Change c { c with effects := act.left c.effects }

/-- The changes of a context that have to do neither with its sheet nor with acts of the host go
along a relation. -/
structure Context.Asides (R : Context → Context → Prop) : Prop where
  announce : ∀ (c : Context) (message : String) (id : Option String),
    R c { c with effects := c.effects.announce message id }
  log : ∀ (c : Context) (args : List Value) (console : Array String),
    R c { c with effects := c.effects.log args, console := console }
  identity : ∀ c : Context, R c { c with fresh := c.fresh + 1 }
  draw : ∀ c : Context, R c (c.withDraws c.draws.next)
  table : ∀ (c : Context) (name : String) (t : Table),
    R c { c with tables := Entries.insert c.tables name t }

theorem Context.Change.asides : Context.Asides Context.Change :=
  ⟨.announce, .log, .identity, .draw, .table⟩

/-- One change that a run makes to its world. -/
inductive World.Change : World → World → Prop
  /-- The context changes. -/
  | context (w : World) {c : Context} (h : w.context.Change c) : Change w { w with context := c }
  /-- The script of the context subscribes; without one, the current script. -/
  | subscribe (w : World) (script : String) (names : List String)
      (h : w.context.scriptId.or w.subscriptions.current = some script) :
      Change w { w with subscriptions := w.subscriptions.registerFor script names }

/-! ## The doors of a program -/

theorem Act.left_on {σ τ α : Type} [Inhabited τ] {get : σ → τ} {set : σ → τ → σ} {act : Act τ α}
    (s : σ) : (Act.on get set act).left s = set (set s default) (act.left (get s)) := by
  unfold left Act.on
  dsimp only
  cases act (get s) with
  | ok a part => rfl
  | error e part => rfl

theorem Context.goes_onEffects {c : Context} {act : Act Effects Value} (lent : c.Lends act) :
    ReflTransGen Context.Change c ((Context.onEffects act).left c) := by
  rw [onEffects, left_on]
  exact .single (.host c act lent)

theorem World.goes_onContext {α : Type} {act : Act Context α} {w : World}
    (h : ReflTransGen Context.Change w.context (act.left w.context)) :
    ReflTransGen World.Change w ((World.onContext act).left w) := by
  rw [onContext, left_on]
  have step : ∀ a b : Context, a.Change b →
      World.Change { w with context := a } { w with context := b } :=
    fun a b change => .context { w with context := a } change
  exact ReflTransGen.lift (fun c => { w with context := c }) step _ _ h

section

variable {R : Context → Context → Prop} (asides : Context.Asides R)
include asides

theorem Context.newIdentity_goes : Goes R Context.newIdentity :=
  fun c => .single (asides.identity c)

theorem ArrayMethod.drawItem_goes (items : List Value) : Goes R (drawItem items) := by
  cases items with
  | nil => exact goes_pure _
  | cons item rest =>
    have goes : Goes R (Context.draw rest.length) := fun c => .single (asides.draw c)
    exact goes.bind fun _ => goes_pure _

theorem ArrayMethod.call_goes (m : ArrayMethod) (items args : List Value) :
    Goes R (m.call items args) := by
  refine (goes_ofExcept _).bind fun _ => ?_
  cases m with
  | random => exact drawItem_goes asides items
  | _ => exact goes_pure _

theorem Context.table_goes (name : String) : Goes R (Context.table name) := by
  refine goes_get_bind fun c => ?_
  split
  next t _ => exact goes_pure t c
  next =>
    split
    next => exact goes_throw _ c
    next chart _ =>
      refine ((newIdentity_goes asides).bind fun identity =>
        (goes_ofExcept _).bind fun t => ?_) c
      exact (goes_modify fun c => asides.table c name t).bind fun _ => goes_pure t

theorem ChartMethod.call_goes (m : ChartMethod) (t : Table) (args : List Value) :
    Goes R (m.call t args) := by
  cases m with
  | get =>
    exact (goes_ofExcept _).bind fun _ => (goes_ofExcept _).bind fun _ => goes_pure _
  | rowWhere =>
    exact (goes_ofExcept _).bind fun _ =>
      (Context.newIdentity_goes asides).bind fun _ => goes_pure _

theorem ObjectRef.callOwner_goes (name : String) (args : List Value) :
    Goes R (callOwner name args) := by
  refine goes_get_bind fun c => ?_
  dsimp only
  split
  · refine ((goes_ofExcept _).bind fun arg => ?_) c
    split
    · exact goes_throw _
    · exact (Context.newIdentity_goes asides).bind fun _ => goes_pure _
  · split
    · exact ((goes_ofExcept _).bind fun _ => goes_pure _) c
    · exact goes_throw _ c

theorem Builtin.writeLog_goes (console : Bool) (args : List Value) :
    Goes R (writeLog console args) := by
  refine goes_modify fun c => ?_
  dsimp only
  split
  · exact asides.log c args _
  · exact asides.log c args c.console

/-- A built-in function goes along a relation of worlds, if that covers the asides and
subscriptions. -/
theorem Builtin.call_goes {Q : World → World → Prop}
    (lift : ∀ {α : Type} {act : Act Context α}, Goes R act → Goes Q (World.onContext act))
    (subscribes : ∀ names, Goes Q (subscribeTo names)) (b : Builtin) (console : Bool)
    (args : List Value) : Goes Q (b.call console args) := by
  unfold call
  split
  · exact (subscribes _).bind fun _ => goes_pure _
  · refine (goes_ofExcept _).bind fun message => (lift ?_).bind fun _ => goes_pure _
    exact goes_modify fun c => asides.announce c message.1 message.2
  · exact (lift (writeLog_goes asides console args)).bind fun _ => goes_pure _
  · refine (goes_ofExcept _).bind fun name => ?_
    exact (lift (Context.table_goes asides name)).bind fun _ => goes_pure _
  · exact goes_ofExcept _

end

namespace ObjectRef

theorem write_goes (id : String) (value : Value) : Goes Context.Change (write id value) :=
  goes_modify fun c => .write c id value.toJson

theorem adjust_goes (method id name : String) (combine : Float → Float → Float)
    (args : List Value) : Goes Context.Change (adjust method id name combine args) := by
  refine (goes_ofExcept _).bind fun arg => (goes_ofExcept _).bind fun amount =>
    goes_get_bind fun c => ?_
  dsimp only
  split
  · exact goes_throw _ c
  · exact ((write_goes id _).bind fun _ => goes_pure _) c

theorem callHandle_goes (id name method : String) (args : List Value) :
    Goes Context.Change (callHandle id name method args) := by
  unfold callHandle
  split_ifs
  · exact (goes_ofExcept _).bind fun value => (write_goes id value).bind fun _ => goes_pure _
  · exact adjust_goes method id name _ args
  · exact adjust_goes method id name _ args
  · exact (goes_ofExcept _).bind fun _ => goes_get_bind fun c => goes_pure _ c
  · exact goes_throw _

theorem call_goes (o : ObjectRef) (name : String) (args : List Value) :
    Goes Context.Change (o.call name args) := by
  cases o with
  | owner => exact callOwner_goes Context.Change.asides name args
  | handle _ id attrName => exact callHandle_goes id attrName name args
  | custom place type =>
    refine goes_get_bind fun c => ?_
    split
    next object found =>
      exact Context.goes_onEffects (.inr ⟨object, List.mem_of_getElem? found, name, args, rfl⟩)
    next => exact goes_throw _ c

end ObjectRef

theorem Value.callMethod_goes (receiver : Value) (name : String) (args : List Value) :
    Goes Context.Change (receiver.callMethod name args) := by
  unfold callMethod
  split
  next items =>
    split
    next m _ => exact m.call_goes Context.Change.asides items args
    next => exact goes_throw _
  next t =>
    split
    next m _ => exact m.call_goes Context.Change.asides t args
    next => exact goes_throw _
  next r =>
    split
    · exact goes_ofExcept _
    · exact goes_throw _
  next o => exact o.call_goes name args
  next => exact goes_throw _

namespace Builtin

theorem subscribeTo_goes (names : List String) : Goes World.Change (subscribeTo names) := by
  refine goes_get_bind fun w => ?_
  split
  next script h => exact .single (.subscribe w script names (by rw [h]; rfl))
  next h =>
    unfold Subscriptions.register
    split
    next => exact .refl
    next script current =>
      exact .single (.subscribe w script names (by rw [h, current]; rfl))

theorem call_changes (b : Builtin) (console : Bool) (args : List Value) :
    Goes World.Change (b.call console args) :=
  b.call_goes Context.Change.asides (fun goes w => World.goes_onContext (goes w.context))
    subscribeTo_goes console args

end Builtin

/-- To have gone from a world by changes is kept by all that a program does to its world. -/
theorem World.changes_simulation (start : World) :
    World.Simulation fun w w' => w = w' ∧ ReflTransGen World.Change start w where
  globals := fun _ _ h => by rw [h.1]
  natives := fun _ _ h => by rw [h.1]
  native := by
    rintro w _ ⟨rfl, path⟩ f lent args
    have goes : ReflTransGen World.Change w
        ((World.onContext (Context.onEffects (f.call args))).left w) :=
      World.goes_onContext (Context.goes_onEffects (.inl ⟨f, lent, args, rfl⟩))
    unfold left at goes
    cases run : World.onContext (Context.onEffects (f.call args)) w with
    | ok a next => exact .ok ⟨rfl, path.trans (by rwa [run] at goes)⟩
    | error e next => exact .error ⟨rfl, path.trans (by rwa [run] at goes)⟩
  builtin := by
    rintro b console args w _ ⟨rfl, path⟩
    exact (b.call_changes console args).alike path
  method := by
    rintro receiver name args w _ ⟨rfl, path⟩
    have goes : Goes World.Change (World.onContext (receiver.callMethod name args)) :=
      fun w => World.goes_onContext (receiver.callMethod_goes name args w.context)
    exact goes.alike path
  property := fun _ _ h receiver name => by rw [h.1]

/-- **Every run goes by changes of its world**, and ends by handing over the effects. -/
theorem Program.run_changes (p : Program) (limits : Limits) (w : World) :
    ∃ (outcome : Except ScriptError Value) (m : Machine), ReflTransGen World.Change w m.world ∧
      p.run limits w = m.finish outcome := by
  obtain ⟨outcome, m, _, ⟨-, path⟩, run, -⟩ :=
    run_alike (World.changes_simulation w) limits p ⟨rfl, .refl⟩
  exact ⟨outcome, m, path, run⟩

/-- So does the run of an event. -/
theorem Program.runEvent_changes (p : Program) (limits : Limits) (name : String)
    (args : List Value) (w : World) :
    ∃ (outcome : Except ScriptError Value) (m : Machine), ReflTransGen World.Change w m.world ∧
      p.runEvent limits name args w = m.finish outcome := by
  obtain ⟨outcome, m, _, ⟨-, path⟩, run, -⟩ :=
    runEvent_alike (World.changes_simulation w) limits p name args ⟨rfl, .refl⟩
  exact ⟨outcome, m, path, run⟩

/-! ## Subscriptions of a run -/

theorem Context.Change.scriptId_eq {c c' : Context} (h : c.Change c') :
    c'.scriptId = c.scriptId := by
  cases h <;> rfl

theorem World.subscriptions_of_changes {w w' : World} (h : ReflTransGen World.Change w w')
    {script : String} (own : w.context.scriptId = some script) :
    w'.context.scriptId = some script ∧
      ∃ names, w'.subscriptions = w.subscriptions.registerFor script names := by
  induction h with
  | refl => exact ⟨own, [], rfl⟩
  | tail _ change ih =>
    obtain ⟨own, names, registered⟩ := ih
    cases change with
    | context change => exact ⟨change.scriptId_eq.trans own, names, registered⟩
    | subscribe other more h =>
      obtain rfl : script = other := by simpa [own] using h
      refine ⟨own, names ++ more, ?_⟩
      rw [registered, Subscriptions.registerFor_append]

/-- A run in the context of a script only adds pairs of that script. -/
theorem Program.run_subscriptions (p : Program) (limits : Limits) (w : World) {script : String}
    (own : w.context.scriptId = some script) :
    ∃ names, (p.run limits w).2.subscriptions = w.subscriptions.registerFor script names := by
  obtain ⟨outcome, m, path, run⟩ := p.run_changes limits w
  obtain ⟨-, names, registered⟩ := World.subscriptions_of_changes path own
  refine ⟨names, ?_⟩
  rw [run]
  cases outcome with
  | ok value => exact registered
  | error e => exact registered

/-! ## Writes of a run -/

/-- Nothing is lent but the sheet, and what is staged for it has been noted as written. -/
structure Context.WritesNoted (c : Context) : Prop where
  natives : c.natives = []
  objects : c.objects = []
  noted : ∀ id ∈ Entries.keys c.writes, id ∈ c.effects.modified

theorem Effects.mem_markModified {e : Effects} {id other : String} :
    other ∈ (e.markModified id).modified ↔ other = id ∨ other ∈ e.modified := by
  unfold markModified
  split_ifs with known
  · have known : id ∈ e.modified := List.contains_iff_mem.1 known
    exact ⟨Or.inr, fun h => h.elim (fun eq => eq ▸ known) fun h => h⟩
  · simp [or_comm]

theorem Context.WritesNoted.change {c c' : Context} (h : c.WritesNoted) (change : c.Change c') :
    c'.WritesNoted := by
  cases change with
  | announce message id => exact ⟨h.natives, h.objects, h.noted⟩
  | log args console => exact ⟨h.natives, h.objects, h.noted⟩
  | identity | draw => exact ⟨h.natives, h.objects, h.noted⟩
  | table name t => exact ⟨h.natives, h.objects, h.noted⟩
  | host act lent =>
    rcases lent with ⟨f, lent, -⟩ | ⟨o, lent, -⟩
    · exact absurd (h.natives ▸ lent) List.not_mem_nil
    · exact absurd (h.objects ▸ lent) List.not_mem_nil
  | write id value =>
    refine ⟨h.natives, h.objects, fun other staged => Effects.mem_markModified.2 ?_⟩
    have noted := h.noted other
    unfold writes at staged noted
    cases desk : c.desk with
    | none => simp [desk, Entries.keys] at staged
    | some desk' =>
      simp only [desk, Option.map_some] at staged noted
      unfold Desk.write at staged
      split at staged
      · exact (Entries.mem_keys_insert.1 staged).imp_right noted
      · exact Or.inr (noted staged)

theorem World.writesNoted_of_changes {w w' : World} (h : ReflTransGen World.Change w w')
    (start : w.context.WritesNoted) : w'.context.WritesNoted := by
  induction h with
  | refl => exact start
  | tail _ change ih =>
    cases change with
    | context change => exact ih.change change
    | subscribe _ _ _ => exact ih

/-- What a run stages for the sheet is among what it notes as written. -/
theorem Program.run_writes (p : Program) (limits : Limits) (w : World)
    (start : w.context.WritesNoted) {id : String}
    (staged : id ∈ Entries.keys (p.run limits w).2.context.writes) :
    id ∈ (p.run limits w).1.effects.modified := by
  obtain ⟨outcome, m, path, run⟩ := p.run_changes limits w
  have noted := World.writesNoted_of_changes path start
  rw [run] at staged ⊢
  cases outcome with
  | ok value => exact noted.noted id staged
  | error e => exact noted.noted id staged

end SheetScript
