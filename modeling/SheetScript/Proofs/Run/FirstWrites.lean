import SheetScript.Proofs.Run.Staging
import SheetScript.Proofs.Run.Watch

/-!
# The order of the first writes

What a run writes to its sheet is kept in two places. The value waits at the desk, under the id of
its attribute; and the id is put on the list for the host, unless it is there. The desk sorts the
ids, and the list keeps them as they came.

* `World.firstWrites` are the ids that begin to wait along the worlds that a run passes.
* `Context.Marks`: a step of a program leaves desk and list alone or makes one write in both. Each
  door of a program does so (`World.doors_marks`), if what the host lends leaves the list alone
  (`Context.Quiet`).
* `Context.Balanced` is the agreement of desk and list; a step of this kind keeps it, and lists what
  begins to wait (`Context.Balanced.step`).
* `World.Tells` is what the host is told of a run. `Program.tells_watch` and
  `Program.tells_watchEvent`: the list of a run holds what has begun to wait, in that order.
-/

namespace SheetScript

open Act Relation

/-! ## Ids that begin to wait -/

/-- The ids of the attributes whose writes wait. -/
def Context.stagedIds (c : Context) : List String := Entries.keys c.writes

/-- The ids that wait in a world and did not in the one before. -/
def World.begun (w next : World) : List String :=
  next.context.stagedIds.filter fun id => id ∉ w.context.stagedIds

/-- The ids that begin to wait along the worlds passed, in the order in which they do. -/
def World.firstWrites (w : World) (passed : List World) : List String :=
  match passed with
  | [] => []
  | next :: rest => w.begun next ++ next.firstWrites rest

/-- From a world to the next at most one id begins to wait, and the list grows by it. -/
structure World.ListsWrites (w next : World) : Prop where
  one : (w.begun next).length ≤ 1
  listed : next.context.effects.modified = w.context.effects.modified ++ w.begun next

/-! ## The doors of a program -/

/-- What the host lends leaves the list of ids alone. -/
def Context.Quiet (c : Context) : Prop :=
  ∀ act, c.Lends act → ∀ e : Effects, (act.left e).modified = e.modified

/-- A host that lends nothing leaves the list alone. -/
theorem Context.quiet_of_nothing_lent {c : Context} (natives : c.natives = [])
    (objects : c.objects = []) : c.Quiet := by
  rintro act (⟨f, lent, -⟩ | ⟨o, lent, -⟩)
  · exact absurd (natives ▸ lent) List.not_mem_nil
  · exact absurd (objects ▸ lent) List.not_mem_nil

/-- Two contexts have the same desk and the same list of ids, and the host lends the same. -/
structure Context.Unmarked (c c' : Context) : Prop where
  natives : c'.natives = c.natives
  objects : c'.objects = c.objects
  desk : c'.desk = c.desk
  modified : c'.effects.modified = c.effects.modified

/-- The context after a write. -/
def Context.written (c : Context) (id : String) (value : Json) : Context :=
  { c with desk := c.desk.map (·.write id value), effects := c.effects.markModified id }

/-- A step leaves desk and list alone, or makes one write in both. -/
inductive Context.Marks (c c' : Context) : Prop
  | nothing (h : c.Unmarked c')
  | write (id : String) (value : Json) (h : c' = c.written id value)

namespace Context

variable {c c' c'' : Context} {α : Type}

theorem Unmarked.refl (c : Context) : c.Unmarked c := ⟨rfl, rfl, rfl, rfl⟩

theorem Unmarked.trans (h : c.Unmarked c') (h' : c'.Unmarked c'') : c.Unmarked c'' :=
  ⟨h'.natives.trans h.natives, h'.objects.trans h.objects, h'.desk.trans h.desk,
    h'.modified.trans h.modified⟩

instance : Std.Refl Unmarked := ⟨.refl⟩

instance : IsTrans Context Unmarked := ⟨fun _ _ _ => .trans⟩

theorem Unmarked.of_path (h : ReflTransGen Unmarked c c') : c.Unmarked c' := by
  rwa [reflTransGen_eq_self] at h

theorem marks_of_goes {act : Act Context α} (h : Goes Unmarked act) (c : Context) :
    c.Marks (act.left c) := .nothing (.of_path (h c))

theorem marks_ofExcept_bind {β : Type} {result : Except ScriptError β} {f : β → Act Context α}
    (h : ∀ b, c.Marks ((f b).left c)) : c.Marks ((MonadExcept.ofExcept result >>= f).left c) := by
  cases result with
  | ok b => exact h b
  | error e => exact .nothing (.refl c)

theorem unmarked_onEffects (quiet : c.Quiet) {act : Act Effects Value} (lent : c.Lends act) :
    c.Unmarked ((onEffects act).left c) := by
  rw [onEffects, left_on]
  exact ⟨rfl, rfl, rfl, quiet act lent c.effects⟩

theorem asides_unmarked : Asides Unmarked :=
  ⟨fun _ _ _ => ⟨rfl, rfl, rfl, rfl⟩, fun _ _ _ => ⟨rfl, rfl, rfl, rfl⟩,
    fun _ => ⟨rfl, rfl, rfl, rfl⟩, fun _ => ⟨rfl, rfl, rfl, rfl⟩,
    fun _ _ _ => ⟨rfl, rfl, rfl, rfl⟩⟩

end Context

namespace ObjectRef

variable {c : Context}

theorem marks_adjust (method id name : String) (combine : Float → Float → Float)
    (args : List Value) : c.Marks ((adjust method id name combine args).left c) := by
  refine Context.marks_ofExcept_bind fun arg => Context.marks_ofExcept_bind fun amount => ?_
  rw [left_get_bind]
  dsimp only
  -- a value that is no number is not written
  split
  · exact .nothing (.refl c)
  · exact .write id _ rfl

/-- **A handle makes at most one write.** -/
theorem marks_callHandle (id name method : String) (args : List Value) :
    c.Marks ((callHandle id name method args).left c) := by
  unfold callHandle
  split_ifs
  · exact Context.marks_ofExcept_bind fun value => .write id value.toJson rfl
  · exact marks_adjust method id name _ args
  · exact marks_adjust method id name _ args
  · exact Context.marks_ofExcept_bind fun _ => .nothing (.refl c)
  · exact .nothing (.refl c)

theorem marks_call (quiet : c.Quiet) (o : ObjectRef) (name : String) (args : List Value) :
    c.Marks ((o.call name args).left c) := by
  cases o with
  | owner => exact Context.marks_of_goes (callOwner_goes Context.asides_unmarked name args) c
  | handle _ id attrName => exact marks_callHandle id attrName name args
  | custom place type =>
    change c.Marks (left (get >>= _) c)
    rw [left_get_bind]
    split
    next object found =>
      exact .nothing (Context.unmarked_onEffects quiet
        (.inr ⟨object, List.mem_of_getElem? found, name, args, rfl⟩))
    next => exact .nothing (.refl c)

end ObjectRef

theorem Value.marks_callMethod {c : Context} (quiet : c.Quiet) (receiver : Value) (name : String)
    (args : List Value) : c.Marks ((receiver.callMethod name args).left c) := by
  unfold callMethod
  split
  next items =>
    split
    next m _ => exact Context.marks_of_goes (m.call_goes Context.asides_unmarked items args) c
    next => exact .nothing (.refl c)
  next t =>
    split
    next m _ => exact Context.marks_of_goes (m.call_goes Context.asides_unmarked t args) c
    next => exact .nothing (.refl c)
  next r =>
    split
    · exact Context.marks_of_goes (goes_ofExcept _) c
    · exact .nothing (.refl c)
  next o => exact o.marks_call quiet name args
  next => exact .nothing (.refl c)

namespace World

/-- Two worlds have unmarked contexts. -/
def Unmarked (w w' : World) : Prop := w.context.Unmarked w'.context

theorem Unmarked.of_path {w w' : World} (h : ReflTransGen Unmarked w w') : w.Unmarked w' :=
  Context.Unmarked.of_path (ReflTransGen.lift context (fun _ _ same => same) _ _ h)

theorem context_onContext {α : Type} (act : Act Context α) (w : World) :
    ((onContext act).left w).context = act.left w.context := by
  rw [onContext, left_on]

theorem unmarked_onContext {α : Type} {act : Act Context α} (h : Goes Context.Unmarked act) :
    Goes Unmarked (onContext act) := by
  intro w
  apply ReflTransGen.single
  rw [Unmarked, context_onContext]
  exact .of_path (h w.context)

/-- To subscribe leaves the context as it is. -/
theorem unmarked_subscribeTo (names : List String) :
    Goes Unmarked (Builtin.subscribeTo names) := by
  refine goes_get_bind fun w => ?_
  split
  · exact .single (.refl w.context)
  · unfold Subscriptions.register
    split
    · exact .refl
    · exact .single (.refl w.context)

/-- A built-in function writes nothing to the sheet. -/
theorem unmarked_builtin (b : Builtin) (console : Bool) (args : List Value) (w : World) :
    w.Unmarked ((b.call console args).left w) :=
  .of_path (b.call_goes Context.asides_unmarked unmarked_onContext unmarked_subscribeTo console
    args w)

end World

/-- A step makes at most one write, if what the host lends leaves the list alone. -/
def World.Marks (w w' : World) : Prop := w.context.Quiet → w.context.Marks w'.context

/-- **Each door of a program makes at most one write**, at the desk and on the list. -/
theorem World.doors_marks : World.Doors World.Marks where
  same := fun w _ => .nothing (.refl w.context)
  builtin := fun b console args w _ => .nothing (unmarked_builtin b console args w)
  native := fun w f lent args quiet => by
    rw [context_onContext]
    exact .nothing (Context.unmarked_onEffects quiet (.inl ⟨f, lent, args, rfl⟩))
  method := fun receiver name args w quiet => by
    rw [context_onContext]
    exact receiver.marks_callMethod quiet name args

/-! ## Desk and list agree -/

/-- The list grows by the id, unless it has it. -/
theorem Effects.modified_markModified (e : Effects) (id : String) :
    (e.markModified id).modified = e.modified ++ [id].filter fun id => id ∉ e.modified := by
  unfold markModified
  by_cases known : id ∈ e.modified
  · rw [if_pos (List.contains_iff_mem.2 known), List.filter_cons_of_neg (by simpa using known)]
    exact (List.append_nil _).symm
  · rw [if_neg fun h => known (List.contains_iff_mem.1 h),
      List.filter_cons_of_pos (by simpa using known)]
    rfl

namespace Context

variable {c c' : Context} {sheet : Sheet}

/-- The writes to a sheet wait, the host leaves the list alone, and the list holds each id that
waits once. -/
structure Balanced (sheet : Sheet) (c : Context) : Prop where
  quiet : c.Quiet
  staging : c.Staging sheet
  nodup : c.effects.modified.Nodup
  agree : ∀ id, id ∈ c.effects.modified ↔ id ∈ c.stagedIds

theorem Unmarked.quiet (h : c.Unmarked c') (quiet : c.Quiet) : c'.Quiet := by
  intro act lent
  unfold Lends at lent
  rw [h.natives, h.objects] at lent
  exact quiet act lent

theorem Unmarked.stagedIds_eq (h : c.Unmarked c') : c'.stagedIds = c.stagedIds := by
  rw [stagedIds, stagedIds, writes, writes, h.desk]

/-- A write waits under its id. -/
theorem Staging.stagedIds_written (h : c.Staging sheet) (id : String) (value : Json) :
    (c.written id value).stagedIds = Entries.keys (Entries.insert c.writes id value) := by
  obtain ⟨d, desk, staging⟩ := h
  rw [stagedIds, written, writes, writes, desk]
  change Entries.keys (d.write id value).writes = _
  rw [Desk.write, staging.policy]

theorem Staging.written (h : c.Staging sheet) (id : String) (value : Json) :
    (c.written id value).Staging sheet := by
  obtain ⟨d, desk, staging⟩ := h
  exact ⟨d.write id value, by rw [Context.written, desk]; rfl, staging.write id value⟩

/-- The start of a run that owns a sheet. -/
theorem balanced_install (quiet : c.Quiet) (sheet : Sheet) (unlisted : c.effects.modified = []) :
    (c.install sheet).Balanced sheet where
  quiet := quiet
  staging := staging_install c sheet
  nodup := unlisted ▸ .nil
  agree := fun id => by
    change id ∈ c.effects.modified ↔ id ∈ []
    rw [unlisted]

theorem Balanced.unmarked (h : c.Balanced sheet) (same : c.Unmarked c') : c'.Balanced sheet where
  quiet := same.quiet h.quiet
  staging := by
    obtain ⟨d, desk, staging⟩ := h.staging
    exact ⟨d, same.desk.trans desk, staging⟩
  nodup := same.modified ▸ h.nodup
  agree := fun id => by rw [same.modified, same.stagedIds_eq, h.agree]

theorem Balanced.written (h : c.Balanced sheet) (id : String) (value : Json) :
    (c.written id value).Balanced sheet where
  quiet := h.quiet
  staging := h.staging.written id value
  nodup := by
    change (c.effects.markModified id).modified.Nodup
    rw [Effects.modified_markModified]
    refine h.nodup.append ((List.nodup_singleton id).filter _) fun other listed new => ?_
    exact of_decide_eq_true (List.mem_filter.1 new).2 listed
  agree := fun other => by
    rw [h.staging.stagedIds_written, Entries.mem_keys_insert]
    exact Effects.mem_markModified.trans (or_congr_right (h.agree other))

end Context

namespace World

variable {w w' last : World} {passed : List World} {sheet : Sheet}

theorem listsWrites_of_unmarked (same : w.Unmarked w') : w.ListsWrites w' := by
  have begun : w.begun w' = [] := by
    rw [World.begun, Context.Unmarked.stagedIds_eq same]
    exact List.filter_eq_nil_iff.2 fun id mem => by simpa using mem
  exact ⟨by simp [begun], by rw [begun, List.append_nil, same.modified]⟩

theorem listsWrites_written (h : w.context.Balanced sheet) {id : String} {value : Json}
    (written : w'.context = w.context.written id value) : w.ListsWrites w' := by
  -- what is new at the desk, by the order of the keys, and what is new on the list, by the order
  -- of the writes, is at most this one id
  have begun : w.begun w' = [id].filter fun id => id ∉ w.context.stagedIds := by
    rw [World.begun, written, h.staging.stagedIds_written]
    refine Entries.filter_keys_insert (fun k old fresh => ?_) id value
    exact of_decide_eq_true fresh old
  have known : (fun id => decide (id ∉ w.context.stagedIds)) =
      fun id => decide (id ∉ w.context.effects.modified) :=
    funext fun id => decide_eq_decide.2 (not_congr (h.agree id).symm)
  refine ⟨begun ▸ List.length_filter_le _ [id], ?_⟩
  rw [begun, known, written]
  exact w.context.effects.modified_markModified id

/-- **A step keeps the balance**, and lists what begins to wait. -/
theorem Marks.step (h : w.context.Balanced sheet) (step : w.Marks w') :
    w'.context.Balanced sheet ∧ w.ListsWrites w' := by
  rcases step h.quiet with same | ⟨id, value, written⟩
  · exact ⟨h.unmarked same, listsWrites_of_unmarked same⟩
  · exact ⟨written ▸ h.written id value, listsWrites_written h written⟩

/-- So does a run. -/
theorem Trail.balanced (trail : Trail Marks w passed last) (h : w.context.Balanced sheet) :
    last.context.Balanced sheet ∧ Trail ListsWrites w passed last := by
  induction trail with
  | nil w => exact ⟨h, .nil w⟩
  | cons step _ ih =>
    obtain ⟨next, lists⟩ := step.step h
    obtain ⟨last, onward⟩ := ih next
    exact ⟨last, .cons lists onward⟩

/-- Where each step lists what begins to wait, the list ends up with it, in that order. -/
theorem Trail.modified_eq (trail : Trail ListsWrites w passed last) :
    last.context.effects.modified = w.context.effects.modified ++ w.firstWrites passed := by
  induction trail with
  | nil w => exact (List.append_nil _).symm
  | cons lists _ ih => rw [ih, lists.listed, List.append_assoc, firstWrites]

end World

/-! ## Runs -/

theorem Machine.effects_finish (outcome : Except ScriptError Value) (m : Machine) :
    (m.finish outcome).1.effects = m.world.context.effects := by
  cases outcome <;> rfl

theorem Machine.context_finish (outcome : Except ScriptError Value) (m : Machine) :
    (m.finish outcome).2.context = { m.world.context with effects := {} } := by
  cases outcome <;> rfl

/-- What the host is told of the writes of a run, watched from a world on. -/
structure World.Tells (start : World) (watched : List World × (RunResult × World)) : Prop where
  /-- No id is listed twice. -/
  nodup : watched.2.1.effects.modified.Nodup
  /-- The ids are listed in the order in which they begin to wait. -/
  order : watched.2.1.effects.modified = start.firstWrites watched.1
  /-- They do so one at a time, and each is listed then. -/
  steps : ∃ last, Trail ListsWrites start watched.1 last ∧
    watched.2.2.context = { last.context with effects := {} }
  /-- What is listed is what waits when the run has ended. -/
  staged : ∃ desk, watched.2.2.context.desk = some desk ∧
    ∀ id, id ∈ watched.2.1.effects.modified ↔ id ∈ desk.stagedIds

theorem World.tells_of_ends {start : World} {sheet : Sheet}
    {watched : List World × (RunResult × World)} (balanced : start.context.Balanced sheet)
    (unlisted : start.context.effects.modified = []) (ends : Plan.Ends Marks start watched) :
    Tells start watched := by
  obtain ⟨outcome, m, trail, ran⟩ := ends
  obtain ⟨balanced, lists⟩ := trail.balanced balanced
  have effects : watched.2.1.effects = m.world.context.effects := by rw [ran, m.effects_finish]
  have context : watched.2.2.context = { m.world.context with effects := {} } := by
    rw [ran, m.context_finish]
  have desk : watched.2.2.context.desk = m.world.context.desk := by rw [context]
  refine ⟨effects ▸ balanced.nodup, ?_, ⟨m.world, lists, context⟩, ?_⟩
  · rw [effects, lists.modified_eq, unlisted]
    rfl
  · obtain ⟨d, found, -⟩ := balanced.staging
    refine ⟨d, desk.trans found, fun id => ?_⟩
    rw [effects, balanced.agree, Context.stagedIds, Context.writes, found]
    rfl

namespace Program

variable {sheet : Sheet} {w : World} (limits : Limits) (p : Program)
  (balanced : w.context.Balanced sheet) (unlisted : w.context.effects.modified = [])
include balanced unlisted

/-- **The list of a run holds what has begun to wait**, in that order. -/
theorem tells_watch : World.Tells w (p.watch limits w) :=
  World.tells_of_ends balanced unlisted (p.ends_watch limits World.doors_marks w)

/-- So does the list of the run of an event. -/
theorem tells_watchEvent (name : String) (args : List Value) :
    World.Tells w (p.watchEvent limits name args w) :=
  World.tells_of_ends balanced unlisted (p.ends_watchEvent limits World.doors_marks name args w)

end Program

end SheetScript
