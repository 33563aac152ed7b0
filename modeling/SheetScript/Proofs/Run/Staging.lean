import SheetScript.Proofs.Run.Change
import SheetScript.Proofs.Sheet.Staging

/-!
# Staged runs and direct runs

A run that owns a sheet stages its writes; the sheet gets them when they are committed. The reference
is a run at a direct desk, where every write reaches the sheet at once and every read reads the
sheet. A staged run does the same and, once its writes are committed, leaves the same sheet.

* `Context.Staging` says that a run stages its writes to a sheet. `World.staging_of_changes`: the
  sheet stays as it is, whatever the run does.
* `Context.Keeps` says that what the host lends to a run holds only objects of a kind.
* `World.settling_coupling`: a staged world and the world at the direct desk go side by side.
* `Program.staged_agrees_with_direct` is the statement about runs.
-/

namespace SheetScript

open Relation Act

/-! ## Contexts -/

/-- A handle is on an attribute of the sheet. -/
def Sheet.Knows (sheet : Sheet) : ObjectRef → Prop
  | .handle _ id _ => (sheet.byId? id).isSome
  | _ => True

namespace Context

/-- The sheet that the run owns. -/
def sheet? (c : Context) : Option Sheet := c.desk.map (·.sheet)

/-- Let the run own a sheet and write to it at once. -/
def installDirect (c : Context) (sheet : Sheet) : Context :=
  { c with desk := some { sheet := sheet, policy := .direct } }.define ownerName (.object .owner)

/-- The run stages its writes to a sheet. -/
def Staging (sheet : Sheet) (c : Context) : Prop := ∃ d, c.desk = some d ∧ d.Staging sheet

/-- What the host lends to a run holds only objects of a kind, as long as it is given only such
objects. Handles in particular come from the method `Attribute` of the character and from nowhere
else, so that the host can have but those that a run has given it. -/
structure Keeps (kind : ObjectRef → Prop) (c : Context) : Prop where
  globals : ∀ entry ∈ c.globals, entry.2.HoldsOnly kind
  natives : ∀ f ∈ c.natives, ∀ args, (∀ v ∈ args, v.HoldsOnly kind) →
    ∀ e v e', f.call args e = .ok v e' → v.HoldsOnly kind
  objects : ∀ o ∈ c.objects, ∀ name args, (∀ v ∈ args, v.HoldsOnly kind) →
    ∀ e v e', o.call name args e = .ok v e' → v.HoldsOnly kind
  properties : ∀ o ∈ c.objects, ∀ name v, o.property name = .ok v → v.HoldsOnly kind

variable {c c' : Context} {sheet : Sheet} {kind : ObjectRef → Prop}

theorem Staging.sheet?_eq (h : c.Staging sheet) : c.sheet? = some sheet := by
  obtain ⟨d, eq, staging⟩ := h
  rw [sheet?, eq, Option.map_some, staging.sheet_eq]

theorem staging_install (c : Context) (sheet : Sheet) : (c.install sheet).Staging sheet :=
  ⟨_, rfl, Desk.staging_new sheet⟩

theorem Staging.change (h : c.Staging sheet) (change : c.Change c') : c'.Staging sheet := by
  cases change with
  | write id value =>
    obtain ⟨d, eq, staging⟩ := h
    exact ⟨d.write id value, by rw [eq, Option.map_some], staging.write id value⟩
  | _ => exact h

theorem Keeps.install (h : c.Keeps kind) (owner : kind .owner) (sheet : Sheet) :
    (c.install sheet).Keeps kind where
  globals := Value.holdsOnly_insert h.globals _ (Value.holdsOnly_object.2 owner)
  natives := h.natives
  objects := h.objects
  properties := h.properties

/-- The context whose desk has settled. -/
def settled (c : Context) : Context := { c with desk := c.desk.map Desk.settled }

theorem settled_install (c : Context) (sheet : Sheet) :
    (c.install sheet).settled = c.installDirect sheet := rfl

/-- One context stages its writes to a sheet, and another writes at once. -/
structure Settles (sheet : Sheet) (c c' : Context) : Prop where
  staging : c.Staging sheet
  keeps : c.Keeps sheet.Knows
  eq : c' = c.settled

end Context

/-- What else is written down does not part the two. -/
theorem Context.settles_update {c : Context} {sheet : Sheet} (staging : c.Staging sheet)
    (keeps : c.Keeps sheet.Knows) (tables : Entries Table) (effects : Effects)
    (console : Array String) (fresh : Nat) : Settles sheet
      { c with tables := tables, effects := effects, console := console, fresh := fresh }
      { c.settled with tables := tables, effects := effects, console := console, fresh := fresh } :=
  ⟨staging, ⟨keeps.globals, keeps.natives, keeps.objects, keeps.properties⟩, rfl⟩

/-- A property of two contexts, between worlds with the same registry. -/
structure World.Over (R : Context → Context → Prop) (w w' : World) : Prop where
  context : R w.context w'.context
  subscriptions : w.subscriptions = w'.subscriptions

/-! ## The sheet of a staged run -/

theorem World.staging_change {w w' : World} {sheet : Sheet} (h : w.context.Staging sheet)
    (change : w.Change w') : w'.context.Staging sheet := by
  cases change with
  | context step => exact h.change step
  | subscribe script names own => exact h

/-- The sheet of a staged run stays as it is. -/
theorem World.staging_of_changes {w w' : World} {sheet : Sheet} (h : w.context.Staging sheet)
    (path : ReflTransGen World.Change w w') :
    ReflTransGen (fun v v' => v.Change v' ∧ v'.context.sheet? = some sheet) w w' ∧
      w'.context.Staging sheet := by
  induction path with
  | refl => exact ⟨.refl, h⟩
  | tail _ change ih =>
    obtain ⟨path, staging⟩ := ih
    have next := World.staging_change staging change
    exact ⟨path.tail ⟨change, next.sheet?_eq⟩, next⟩

/-! ## The doors of a program -/

section

variable {sheet : Sheet} {α : Type} {G : α → Prop}

theorem World.agree_onContext {R : Context → Context → Prop} {act act' : Act Context α}
    {w w' : World} (h : Over R w w') (agree : Agree R G (act w.context) (act' w'.context)) :
    Agree (Over R) G (World.onContext act w) (World.onContext act' w') := by
  unfold World.onContext Act.on
  dsimp only
  obtain ⟨alike, gives⟩ := agree
  generalize act w.context = r, act' w'.context = r' at alike gives
  cases alike with
  | ok next => exact .ok ⟨next, h.subscriptions⟩ (gives _ _ rfl)
  | error next => exact .error ⟨next, h.subscriptions⟩

theorem World.couples_onContext {R : Context → Context → Prop} {act act' : Act Context α}
    (h : Couples R G act act') :
    Couples (Over R) G (World.onContext act) (World.onContext act') :=
  fun _ _ start => agree_onContext start (h start.context)

theorem World.couples_subscribeTo {R : Context → Context → Prop}
    (same : ∀ ⦃c c'⦄, R c c' → c.scriptId = c'.scriptId) (names : List String) :
    Couples (Over R) (fun _ => True) (Builtin.subscribeTo names) (Builtin.subscribeTo names) := by
  refine couples_get_bind ?_
  rintro ⟨c, s⟩ ⟨c', _⟩ ⟨contexts, rfl⟩
  dsimp only
  rw [same contexts]
  cases c'.scriptId with
  | some script => exact .ok ⟨contexts, rfl⟩ trivial
  | none =>
    cases s.register names with
    | ok subscriptions => exact .ok ⟨contexts, rfl⟩ trivial
    | error e => exact .error ⟨contexts, rfl⟩

namespace Context

/-- What does not touch the desk does the same in both contexts. -/
theorem settles_onEffects {act : Act Effects Value}
    (gives : ∀ e v e', act e = .ok v e' → v.HoldsOnly sheet.Knows) {c c' : Context}
    (h : Settles sheet c c') :
    Agree (Settles sheet) (Value.HoldsOnly sheet.Knows) (onEffects act c) (onEffects act c') := by
  obtain ⟨staging, keeps, rfl⟩ := h
  unfold onEffects Act.on
  dsimp only [settled]
  cases run : act c.effects with
  | ok v e =>
    exact .ok (settles_update staging keeps c.tables e c.console c.fresh) (gives _ v e run)
  | error err e => exact .error (settles_update staging keeps c.tables e c.console c.fresh)

theorem settles_newIdentity :
    Couples (Settles sheet) (fun _ => True) newIdentity newIdentity := by
  rintro c _ ⟨staging, keeps, rfl⟩
  exact .ok (settles_update staging keeps c.tables c.effects c.console (c.fresh + 1)) trivial

theorem settles_draw (rest : Nat) : Respects (Settles sheet) (draw rest) := by
  rintro c _ ⟨staging, keeps, rfl⟩
  exact .ok ⟨staging, ⟨keeps.globals, keeps.natives, keeps.objects, keeps.properties⟩, rfl⟩

theorem settles_table (name : String) :
    Couples (Settles sheet) (fun _ => True) (table name) (table name) := by
  refine couples_get_bind ?_
  rintro c _ ⟨staging, keeps, rfl⟩
  have start : Settles sheet c c.settled := ⟨staging, keeps, rfl⟩
  dsimp only [settled]
  cases Entries.find? c.tables name with
  | some t => exact couples_pure trivial start
  | none =>
    cases Entries.find? c.charts name with
    | none => exact couples_throw _ start
    | some chart =>
      refine (settles_newIdentity.bind fun identity _ => couples_ofExcept_bind fun t _ =>
        (couples_modify ?_).bind fun _ _ => couples_pure trivial) start
      rintro c _ ⟨staging, keeps, rfl⟩
      exact settles_update staging keeps (Entries.insert c.tables name t) c.effects c.console c.fresh

end Context

/-- Both contexts draw from one source, so that they draw the same. -/
theorem ArrayMethod.settles_call (m : ArrayMethod) {items : List Value} (args : List Value)
    (fits : ∀ v ∈ items, v.HoldsOnly sheet.Knows) :
    Couples (Context.Settles sheet) (Value.HoldsOnly sheet.Knows) (m.call items args)
      (m.call items args) := by
  have draws : Respects (Context.Settles sheet) (drawItem items) := by
    cases items with
    | nil => exact respects_pure _
    | cons item rest => exact (Context.settles_draw _).bind fun _ => respects_pure _
  have alike : Respects (Context.Settles sheet) (m.call items args) := by
    refine (respects_ofExcept _).bind fun _ => ?_
    cases m with
    | random => exact draws
    | _ => exact respects_pure _
  exact fun _ _ h => ⟨alike h, fun _ _ given => m.holdsOnly_call fits given⟩

theorem ChartMethod.settles_call (m : ChartMethod) (t : Table) (args : List Value) :
    Couples (Context.Settles sheet) (Value.HoldsOnly sheet.Knows) (m.call t args)
      (m.call t args) := by
  cases m with
  | get =>
    exact couples_ofExcept_bind fun header _ => couples_ofExcept_bind fun cells found =>
      couples_pure (Value.holdsOnly_array.2 (Table.holdsOnly_column found))
  | rowWhere =>
    exact couples_ofExcept_bind fun wanted _ => Context.settles_newIdentity.bind fun _ _ =>
      couples_pure (Value.holdsOnly_of_nil rfl)

namespace ObjectRef

/-- A commit changes values only, so that the character is the same to both. -/
theorem settles_callOwner (name : String) (args : List Value) :
    Couples (Context.Settles sheet) (Value.HoldsOnly sheet.Knows) (callOwner name args)
      (callOwner name args) := by
  refine couples_get_bind fun c c' h => ?_
  have ⟨⟨d, desk, staging⟩, _, eq⟩ := h
  have frame := Sheet.sameFrame_commit sheet d.writes
  have owned : (c.desk.map (·.sheet)).getD default = sheet := by
    rw [desk, Option.map_some, Option.getD_some, staging.sheet_eq]
  have owned' : (c'.desk.map (·.sheet)).getD default = sheet.commit d.writes := by
    rw [eq, Context.settled, desk, ← staging.sheet_eq]
    rfl
  dsimp only
  rw [owned, owned']
  split_ifs
  · refine couples_ofExcept_bind (fun arg _ => ?_) h
    have label := frame.label_byName? arg.display
    cases found : sheet.byName? arg.display with
    | none =>
      rw [found, Option.map_none, eq_comm, Option.map_eq_none_iff] at label
      rw [label]
      exact couples_throw _
    | some a =>
      rw [found, Option.map_some, eq_comm, Option.map_eq_some_iff] at label
      obtain ⟨b, found', same⟩ := label
      obtain ⟨id, name⟩ := Prod.mk.inj same
      rw [found']
      dsimp only
      rw [id, name]
      exact Context.settles_newIdentity.bind fun _ _ =>
        couples_pure (Value.holdsOnly_object.2 (Sheet.isSome_byId?_of_byName? found))
  · refine couples_ofExcept_bind (fun arg _ => ?_) h
    rw [frame.hasItem_eq]
    exact couples_pure (Value.holdsOnly_of_nil rfl)
  · exact couples_throw _ h

theorem current_settled {c c' : Context} (h : c.Settles sheet c') {id : String}
    (known : (sheet.byId? id).isSome) : current c id = current c' id := by
  obtain ⟨⟨d, desk, staging⟩, -, rfl⟩ := h
  have read : c.settled.desk.bind (·.read? id) = c.desk.bind (·.read? id) := by
    rw [Context.settled, desk]
    exact staging.read?_settled known
  unfold current
  rw [read]

theorem objects_current (c : Context) (id : String) : (current c id).objects = [] := by
  unfold current
  split
  · exact Value.objects_ofJson _
  · rfl

theorem settles_write (id : String) (value : Value) :
    Couples (Context.Settles sheet) (fun _ => True) (write id value) (write id value) := by
  refine couples_modify fun c c' h => ?_
  obtain ⟨⟨d, desk, staging⟩, keeps, rfl⟩ := h
  refine ⟨⟨d.write id value.toJson, ?_, staging.write id _⟩, ⟨keeps.globals, keeps.natives,
    keeps.objects, keeps.properties⟩, ?_⟩
  · dsimp only
    rw [desk, Option.map_some]
  · unfold Context.settled
    dsimp only
    rw [desk, Option.map_some, Option.map_some, Option.map_some, Option.map_some,
      staging.settled_write]

theorem settles_adjust (method id name : String) (combine : Float → Float → Float)
    (args : List Value) (known : (sheet.byId? id).isSome) :
    Couples (Context.Settles sheet) (Value.HoldsOnly sheet.Knows)
      (adjust method id name combine args) (adjust method id name combine args) := by
  refine couples_ofExcept_bind fun arg _ => couples_ofExcept_bind fun amount _ =>
    couples_get_bind fun c c' h => ?_
  dsimp only
  rw [current_settled h known]
  cases (current c' id).toNumber? with
  | none => exact couples_throw _ h
  | some x =>
    exact (settles_write id _).bind (fun _ _ => couples_pure (Value.holdsOnly_of_nil rfl)) h

theorem settles_callHandle (id name method : String) (args : List Value)
    (known : (sheet.byId? id).isSome) (fit : ∀ v ∈ args, v.HoldsOnly sheet.Knows) :
    Couples (Context.Settles sheet) (Value.HoldsOnly sheet.Knows)
      (callHandle id name method args) (callHandle id name method args) := by
  unfold callHandle
  split_ifs
  · exact couples_ofExcept_bind fun value only => (settles_write id value).bind fun _ _ =>
      couples_pure (fit value (mem_of_onlyArg only))
  · exact settles_adjust method id name _ args known
  · exact settles_adjust method id name _ args known
  · refine couples_ofExcept_bind fun _ _ => couples_get_bind fun c c' h => ?_
    rw [current_settled h known]
    exact couples_pure (Value.holdsOnly_of_nil (objects_current c' id)) h
  · exact couples_throw _

theorem settles_call (o : ObjectRef) (name : String) (args : List Value) (known : sheet.Knows o)
    (fit : ∀ v ∈ args, v.HoldsOnly sheet.Knows) :
    Couples (Context.Settles sheet) (Value.HoldsOnly sheet.Knows) (o.call name args)
      (o.call name args) := by
  cases o with
  | owner => exact settles_callOwner name args
  | handle _ id attrName => exact settles_callHandle id attrName name args known fit
  | custom place type =>
    refine couples_get_bind fun c c' h => ?_
    have same : c'.objects = c.objects := by rw [h.eq]; rfl
    rw [same]
    cases found : c.objects[place]? with
    | none => exact couples_throw _ h
    | some object =>
      exact Context.settles_onEffects
        (h.keeps.objects object (List.mem_of_getElem? found) name args fit) h

theorem settles_property {c c' : Context} (h : c.Settles sheet c') (o : ObjectRef) (name : String)
    (known : sheet.Knows o) : o.property c name = o.property c' name ∧
      ∀ v, o.property c name = .ok v → v.HoldsOnly sheet.Knows := by
  cases o with
  | owner => exact ⟨rfl, fun v given => nomatch given⟩
  | handle _ id attrName =>
    unfold property
    dsimp only
    rw [current_settled h known]
    refine ⟨rfl, fun v given => Value.holdsOnly_of_nil ?_⟩
    split_ifs at given
    · exact Except.ok.inj given ▸ objects_current c' id
    · exact Except.ok.inj given ▸ rfl
    · exact Except.ok.inj given ▸ rfl
  | custom place type =>
    have same : c'.objects = c.objects := by rw [h.eq]; rfl
    unfold property
    dsimp only
    rw [same]
    refine ⟨rfl, fun v given => ?_⟩
    cases found : c.objects[place]? with
    | none => simp [found] at given
    | some object =>
      rw [found] at given
      exact h.keeps.properties object (List.mem_of_getElem? found) name v given

end ObjectRef

namespace Value

theorem settles_callMethod (receiver : Value) (name : String) (args : List Value)
    (fits : receiver.HoldsOnly sheet.Knows) (fit : ∀ v ∈ args, v.HoldsOnly sheet.Knows) :
    Couples (Context.Settles sheet) (HoldsOnly sheet.Knows) (receiver.callMethod name args)
      (receiver.callMethod name args) := by
  unfold callMethod
  split
  next items =>
    split
    next m _ => exact m.settles_call args (holdsOnly_array.1 fits)
    next => exact couples_throw _
  next t =>
    split
    next m _ => exact m.settles_call t args
    next => exact couples_throw _
  next r =>
    split
    next m _ => exact couples_ofExcept fun v given => holdsOnly_of_nil (m.objects_call given)
    next => exact couples_throw _
  next o => exact o.settles_call name args (holdsOnly_object.1 fits) fit
  next => exact couples_throw _

theorem settles_property {c c' : Context} (h : c.Settles sheet c') (receiver : Value)
    (name : String) (fits : receiver.HoldsOnly sheet.Knows) :
    receiver.property c name = receiver.property c' name ∧
      ∀ v, receiver.property c name = .ok v → v.HoldsOnly sheet.Knows := by
  cases receiver with
  | object o => exact o.settles_property h name (holdsOnly_object.1 fits)
  | map entries =>
    refine ⟨rfl, fun v given => ?_⟩
    exact Except.ok.inj given ▸ holdsOnly_find?_getD (holdsOnly_map.1 fits) name
  | chart t =>
    refine ⟨rfl, fun v given => holdsOnly_of_nil ?_⟩
    simp only [property] at given
    split_ifs at given
    exact Except.ok.inj given ▸ rfl
  | _ => exact ⟨rfl, fun v given => nomatch given⟩

end Value

theorem Builtin.settles_call (b : Builtin) (console : Bool) (args : List Value) :
    Couples (World.Over (Context.Settles sheet)) (Value.HoldsOnly sheet.Knows) (b.call console args)
      (b.call console args) := by
  unfold call
  split
  · refine (World.couples_subscribeTo (fun c c' h => ?_) _).bind fun _ _ =>
      couples_pure (Value.holdsOnly_of_nil rfl)
    rw [h.eq]
    rfl
  · refine couples_ofExcept_bind fun message _ =>
      (World.couples_onContext (couples_modify fun c c' h => ?_)).bind fun _ _ =>
      couples_pure (Value.holdsOnly_of_nil rfl)
    obtain ⟨staging, keeps, rfl⟩ := h
    exact Context.settles_update staging keeps c.tables (c.effects.announce message.1 message.2)
      c.console c.fresh
  · refine (World.couples_onContext (couples_modify fun c c' h => ?_)).bind fun _ _ =>
      couples_pure (Value.holdsOnly_of_nil rfl)
    obtain ⟨staging, keeps, rfl⟩ := h
    dsimp only
    split
    · exact Context.settles_update staging keeps c.tables (c.effects.log args) _ c.fresh
    · exact Context.settles_update staging keeps c.tables (c.effects.log args) c.console c.fresh
  · exact couples_ofExcept_bind fun name _ =>
      (World.couples_onContext (Context.settles_table name)).bind fun _ _ =>
      couples_pure (Value.holdsOnly_of_nil rfl)
  · refine couples_ofExcept fun v given => Value.holdsOnly_of_nil ?_
    cases pure : b.pure? args with
    | none =>
      rw [pure] at given
      exact Except.ok.inj given ▸ rfl
    | some result =>
      rw [pure, Option.getD_some] at given
      exact b.objects_pure? (given ▸ pure)

end

/-- A world that stages its writes goes side by side with one that writes at once. -/
theorem World.settling_coupling (sheet : Sheet) :
    World.Coupling (Over (Context.Settles sheet)) sheet.Knows where
  globals := fun w w' h => by rw [h.context.eq]; rfl
  fits := fun w w' h => h.context.keeps.globals
  natives := fun w w' h => by rw [h.context.eq]; rfl
  native := fun w w' h f lent args fit => agree_onContext h
    (Context.settles_onEffects (h.context.keeps.natives f lent args fit) h.context)
  builtin := fun b console args _ => b.settles_call console args
  method := fun receiver name args fits fit =>
    couples_onContext (receiver.settles_callMethod name args fits fit)
  property := fun w w' h receiver name fits => receiver.settles_property h.context name fits

/-! ## Runs -/

/-- What a staged run from a world comes to, beside a run that writes at once. -/
structure AgreesWithDirect (sheet : Sheet) (start : World) (staged direct : RunResult × World) :
    Prop where
  result : staged.1 = direct.1
  /-- The writes of the staged run make the sheet that the other one leaves. -/
  committed : direct.2.context.sheet? = some (sheet.commit staged.2.context.writes)
  /-- The other run holds no write back. -/
  atOnce : direct.2.context.writes = []
  subscriptions : staged.2.subscriptions = direct.2.subscriptions
  /-- Until they are committed, the sheet stays as it is. -/
  waiting : staged.2.context.sheet? = some sheet
  /-- It does so at every moment of the run. -/
  untouched : ∃ outcome m, staged = Machine.finish outcome m ∧
    ReflTransGen (fun v w => v.Change w ∧ w.context.sheet? = some sheet) start m.world

theorem Context.Settles.sheet?_eq {c c' : Context} {sheet : Sheet} (h : c.Settles sheet c') :
    c'.sheet? = some (sheet.commit c.writes) := by
  obtain ⟨⟨d, desk, staging⟩, -, rfl⟩ := h
  have writes : c.writes = d.writes := by rw [Context.writes, desk]
  rw [writes, sheet?, settled, desk, ← staging.sheet_eq]
  rfl

theorem Context.Settles.writes_eq {c c' : Context} {sheet : Sheet} (h : c.Settles sheet c') :
    c'.writes = [] := by
  obtain ⟨⟨d, desk, -⟩, -, rfl⟩ := h
  rw [writes, settled, desk]
  rfl

theorem Machine.finish_agrees {outcome outcome' : Except ScriptError Value} {m m' : Machine}
    {start v : World} {sheet : Sheet} (h : World.Over (Context.Settles sheet) m.world v)
    (same : m'.finish outcome' = m.finish outcome) (staging : start.context.Staging sheet)
    (path : ReflTransGen World.Change start m'.world) :
    AgreesWithDirect sheet start (m.finish outcome) (finish outcome { m with world := v }) := by
  have effects : v.context.effects = m.world.context.effects := by rw [h.context.eq]; rfl
  have finished : (m.finish outcome).2 = ⟨m.world.context.takeEffects.2, m.world.subscriptions⟩ := by
    cases outcome <;> rfl
  have finished' : (finish outcome { m with world := v }).2 =
      ⟨v.context.takeEffects.2, v.subscriptions⟩ := by
    cases outcome <;> rfl
  refine ⟨?_, ?_, ?_, ?_, ?_, outcome', m', same.symm, (World.staging_of_changes staging path).1⟩
  · cases outcome with
    | ok value => simp only [finish, Context.takeEffects, effects]
    | error e => simp only [finish, Context.takeEffects, effects, failureOf]
  · rw [finished, finished']
    exact h.context.sheet?_eq
  · rw [finished']
    exact h.context.writes_eq
  · rw [finished, finished']
    exact h.subscriptions
  · rw [finished]
    exact h.context.staging.sheet?_eq

/-- **Staged writes agree with direct writes.** Whether or not it succeeds, a run that stages its
writes to a sheet gives what the run gives that writes at once; its writes, once committed, make the
sheet that the other one leaves, and until then the sheet stays as it is. The same holds of an event
whose arguments have handles on the sheet only. -/
theorem Program.staged_agrees_with_direct (p : Program) (limits : Limits) {c : Context}
    {sheet : Sheet} (s : Subscriptions) (keeps : c.Keeps sheet.Knows) :
    AgreesWithDirect sheet ⟨c.install sheet, s⟩ (p.run limits ⟨c.install sheet, s⟩)
      (p.run limits ⟨c.installDirect sheet, s⟩) ∧
    ∀ (name : String) (args : List Value), (∀ v ∈ args, v.HoldsOnly sheet.Knows) →
      AgreesWithDirect sheet ⟨c.install sheet, s⟩
        (p.runEvent limits name args ⟨c.install sheet, s⟩)
        (p.runEvent limits name args ⟨c.installDirect sheet, s⟩) := by
  have C := World.settling_coupling sheet
  have staging := Context.staging_install c sheet
  have start : World.Over (Context.Settles sheet) ⟨c.install sheet, s⟩ ⟨c.installDirect sheet, s⟩ :=
    ⟨⟨staging, keeps.install trivial sheet, (Context.settled_install c sheet).symm⟩, rfl⟩
  constructor
  · obtain ⟨outcome, m, v, settles, run, run'⟩ := p.run_coupled C limits start
    obtain ⟨outcome', m', path, same⟩ := p.run_changes limits ⟨c.install sheet, s⟩
    rw [run, run']
    exact Machine.finish_agrees settles (same.symm.trans run) staging path
  · intro name args fit
    obtain ⟨outcome, m, v, settles, run, run'⟩ := p.runEvent_coupled C limits name fit start
    obtain ⟨outcome', m', path, same⟩ := p.runEvent_changes limits name args ⟨c.install sheet, s⟩
    rw [run, run']
    exact Machine.finish_agrees settles (same.symm.trans run) staging path

/-! ## A run with two handles -/

/-- A host that lends a function, which gives back its first argument. -/
def echoing : Context :=
  ({} : Context).defineNative ⟨"echo", fun args => pure (args.headD .null)⟩

theorem keeps_echoing (kind : ObjectRef → Prop) : echoing.Keeps kind where
  globals := fun entry mem => by
    obtain rfl := List.mem_singleton.1 mem
    exact Value.holdsOnly_of_nil rfl
  natives := fun f lent args fit e v e' done => by
    obtain rfl := List.mem_singleton.1 lent
    cases done
    cases args with
    | nil => exact Value.holdsOnly_of_nil rfl
    | cons first rest => exact fit first List.mem_cons_self
  objects := fun o lent => absurd lent List.not_mem_nil
  properties := fun o lent => absurd lent List.not_mem_nil

/-- A program that writes an attribute through one handle, which the host has had in its hands, and
reads it through another. -/
def rewriting : Program :=
  let handle : Expr := .call (.property (.variable "Owner") "Attribute") [.string "A"]
  ⟨[.expression 1 (.call (.property (.call (.variable "echo") [handle]) "set") [.string "new"]),
    .expression 2 (.property handle "value")]⟩

/-- A sheet with one attribute. -/
def oneAttribute : Sheet :=
  { characterId := "char-1", rulesetId := "r1", attributes := [⟨"a", "A", .string "old"⟩] }

/-- The program rewrites the attribute, staged or not. -/
theorem rewriting_agrees_with_direct : echoing.Keeps oneAttribute.Knows ∧
    AgreesWithDirect oneAttribute ⟨echoing.install oneAttribute, {}⟩
      (rewriting.run {} ⟨echoing.install oneAttribute, {}⟩)
      (rewriting.run {} ⟨echoing.installDirect oneAttribute, {}⟩) ∧
    (rewriting.run {} ⟨echoing.install oneAttribute, {}⟩).1.value = .string "new" ∧
    (rewriting.run {} ⟨echoing.install oneAttribute, {}⟩).2.context.writes =
      [("a", .string "new")] :=
  ⟨keeps_echoing _, (rewriting.staged_agrees_with_direct {} {} (keeps_echoing _)).1, rfl, rfl⟩

end SheetScript
