import SheetScript.Proofs.Run.Logic

/-!
# Runs in related worlds

A program touches its world through few doors: a look-up of a global name, a call of a built-in
function or of a function of the host, a method and a property. If a relation between worlds is kept
by each of them, then a whole run keeps it, and gives the same value or the same failure in both
worlds.

* `Act.Respects` says this of one step, and is closed under the ways steps are put together.
* `World.Coupling` asks it of the doors, for values that hold only objects of a kind, and that those
  give such values. `World.Coupling.logic` is the comparison of runs that follows.
* `Program.run_coupled` and `Program.runEvent_coupled` are the statements about a run.
* `World.Simulation` asks it of the doors for all values; then `Program.run_alike` and
  `Program.runEvent_alike` say the same.

With a relation that holds of equal worlds only, this is the principle of invariants.
-/

namespace SheetScript

namespace Act

variable {σ τ α β : Type} {R : σ → σ → Prop}

/-- Two outcomes give the same, and leave related states. -/
inductive Alike (R : σ → σ → Prop) :
    EStateM.Result ScriptError σ α → EStateM.Result ScriptError σ α → Prop
  | ok {a : α} {s s' : σ} (h : R s s') : Alike R (.ok a s) (.ok a s')
  | error {e : ScriptError} {s s' : σ} (h : R s s') : Alike R (.error e s) (.error e s')

/-- From related states, a step gives the same and leaves related states. -/
def Respects (R : σ → σ → Prop) (act : Act σ α) : Prop :=
  ∀ ⦃s s' : σ⦄, R s s' → Alike R (act s) (act s')

theorem respects_pure (a : α) : Respects R (pure a : Act σ α) := fun _ _ h => .ok h

theorem respects_throw (e : ScriptError) : Respects R (throw e : Act σ α) := fun _ _ h => .error h

theorem respects_ofExcept (result : Except ScriptError α) :
    Respects R (MonadExcept.ofExcept result : Act σ α) := by
  cases result with
  | ok a => exact respects_pure a
  | error e => exact respects_throw e

theorem Respects.bind {act : Act σ α} {f : α → Act σ β} (h : Respects R act)
    (hf : ∀ a, Respects R (f a)) : Respects R (act >>= f) := by
  intro s s' hs
  change Alike R (EStateM.bind act f s) (EStateM.bind act f s')
  unfold EStateM.bind
  have first := h hs
  generalize act s = r, act s' = r' at first
  cases first with
  | ok next => exact hf _ next
  | error next => exact .error next

end Act

open Act

namespace Act

variable {σ τ α β : Type} {R : σ → σ → Prop} {G : α → Prop} {H : β → Prop}

/-- Two outcomes are alike, and the value that they give has a property. -/
structure Agree (R : σ → σ → Prop) (G : α → Prop) (r r' : EStateM.Result ScriptError σ α) :
    Prop where
  alike : Alike R r r'
  gives : ∀ a s, r = .ok a s → G a

/-- From related states, two steps give the same, which has a property, and leave related states. -/
def Couples (R : σ → σ → Prop) (G : α → Prop) (act act' : Act σ α) : Prop :=
  ∀ ⦃s s' : σ⦄, R s s' → Agree R G (act s) (act' s')

theorem Agree.ok {a : α} {s s' : σ} (h : R s s') (g : G a) : Agree R G (.ok a s) (.ok a s') :=
  ⟨.ok h, fun _ _ eq => by cases eq; exact g⟩

theorem Agree.error {e : ScriptError} {s s' : σ} (h : R s s') :
    Agree R G (.error e s : EStateM.Result ScriptError σ α) (.error e s') :=
  ⟨.error h, fun _ _ eq => by cases eq⟩

theorem couples_pure {a : α} (g : G a) : Couples R G (pure a : Act σ α) (pure a) :=
  fun _ _ h => .ok h g

theorem couples_throw (e : ScriptError) : Couples R G (throw e : Act σ α) (throw e) :=
  fun _ _ h => .error h

theorem couples_ofExcept {result : Except ScriptError α} (g : ∀ a, result = .ok a → G a) :
    Couples R G (MonadExcept.ofExcept result : Act σ α) (MonadExcept.ofExcept result) := by
  cases result with
  | ok a => exact couples_pure (g a rfl)
  | error e => exact couples_throw e

theorem Couples.bind {act act' : Act σ α} {f f' : α → Act σ β} (h : Couples R G act act')
    (hf : ∀ a, G a → Couples R H (f a) (f' a)) : Couples R H (act >>= f) (act' >>= f') := by
  intro s s' hs
  obtain ⟨alike, gives⟩ := h hs
  change Agree R H (EStateM.bind act f s) (EStateM.bind act' f' s')
  unfold EStateM.bind
  generalize act s = r, act' s' = r' at alike gives
  cases alike with
  | ok next => exact hf _ (gives _ _ rfl) next
  | error next => exact .error next

theorem couples_ofExcept_bind {result : Except ScriptError α} {f f' : α → Act σ β}
    (h : ∀ a, result = .ok a → Couples R H (f a) (f' a)) :
    Couples R H (MonadExcept.ofExcept result >>= f) (MonadExcept.ofExcept result >>= f') :=
  (couples_ofExcept fun _ eq => eq).bind h

theorem couples_get_bind {f f' : σ → Act σ α}
    (h : ∀ ⦃s s' : σ⦄, R s s' → Agree R G (f s s) (f' s' s')) :
    Couples R G (get >>= f) (get >>= f') := fun _ _ hs => h hs

theorem couples_modify {f f' : σ → σ} (h : ∀ ⦃s s' : σ⦄, R s s' → R (f s) (f' s')) :
    Couples R (fun _ => True) (modify f : Act σ Unit) (modify f') := fun _ _ hs => .ok (h hs) trivial

end Act

open Act

/-! ## Machines with related worlds -/

/-- The values that scopes bind hold only objects of a kind. -/
def Scopes.HoldsOnly (kind : ObjectRef → Prop) (scopes : Scopes) : Prop :=
  ∀ place, ∀ entry ∈ scopes.getD place [], entry.2.HoldsOnly kind

namespace Scopes

variable {kind : ObjectRef → Prop} {scopes : Scopes}

theorem HoldsOnly.lookup? (h : HoldsOnly kind scopes) {chain : Chain} {name : String} {v : Value}
    (found : scopes.lookup? chain name = some v) : v.HoldsOnly kind :=
  Scopes.All.lookup? h found

theorem HoldsOnly.define (h : HoldsOnly kind scopes) (place : Nat) (name : String) {v : Value}
    (hv : v.HoldsOnly kind) : HoldsOnly kind (scopes.define place name v) :=
  Scopes.All.define h place name hv

theorem HoldsOnly.push (h : HoldsOnly kind scopes) {bindings : Entries Value}
    (hb : ∀ entry ∈ bindings, entry.2.HoldsOnly kind) : HoldsOnly kind (scopes.push bindings) :=
  Scopes.All.push h hb

end Scopes

namespace Machine

variable {R : World → World → Prop} {kind : ObjectRef → Prop} {α : Type} {G : α → Prop}

/-- Two machines differ in their worlds only, and these are related. -/
def Rel (R : World → World → Prop) (m m' : Machine) : Prop :=
  ∃ w, m' = { m with world := w } ∧ R m.world w

/-- Besides, the values that they keep hold only objects of a kind. -/
structure Coupled (R : World → World → Prop) (kind : ObjectRef → Prop) (m m' : Machine) :
    Prop where
  rel : Rel R m m'
  scopes : m.scopes.HoldsOnly kind
  lastValue : m.lastValue.HoldsOnly kind

theorem coupled_start {w w' : World} (h : R w w') :
    Coupled R kind { world := w } { world := w' } := by
  refine ⟨⟨w', rfl, h⟩, fun place entry mem => ?_, Value.holdsOnly_of_nil rfl⟩
  rw [Array.getD_eq_getD_getElem?] at mem
  cases place with
  | zero => exact absurd mem List.not_mem_nil
  | succ place => exact absurd mem List.not_mem_nil

theorem onWorld_agree {act act' : Act World α} {m : Machine} {w : World}
    (scopes : m.scopes.HoldsOnly kind) (lastValue : m.lastValue.HoldsOnly kind)
    (h : Agree R G (act m.world) (act' w)) :
    Agree (Coupled R kind) G (onWorld act m) (onWorld act' { m with world := w }) := by
  unfold onWorld Act.on
  dsimp only
  obtain ⟨alike, gives⟩ := h
  generalize act m.world = r, act' w = r' at alike gives
  cases alike with
  | ok next => exact .ok ⟨⟨_, rfl, next⟩, scopes, lastValue⟩ (gives _ _ rfl)
  | error next => exact .error ⟨⟨_, rfl, next⟩, scopes, lastValue⟩

theorem onWorld_couples {act act' : Act World α} (h : Couples R G act act') :
    Couples (Coupled R kind) G (onWorld act) (onWorld act') := by
  rintro m _ ⟨⟨w, rfl, hw⟩, scopes, lastValue⟩
  exact onWorld_agree scopes lastValue (h hw)

theorem noteFailure_coupled {m m' : Machine} (h : Coupled R kind m m') (line : Nat) :
    Coupled R kind (m.noteFailure line) (m'.noteFailure line) := by
  obtain ⟨⟨w, rfl, hw⟩, scopes, lastValue⟩ := h
  unfold noteFailure
  dsimp only
  split
  · exact ⟨⟨w, rfl, hw⟩, scopes, lastValue⟩
  · exact ⟨⟨w, rfl, hw⟩, scopes, lastValue⟩

theorem atLine_couples {act act' : Run α} (line : Nat) (h : Couples (Coupled R kind) G act act') :
    Couples (Coupled R kind) G (atLine line act) (atLine line act') := by
  rintro m _ ⟨⟨w, rfl, hw⟩, scopes, lastValue⟩
  unfold atLine
  have start : Coupled R kind { m with line := line } { m with world := w, line := line } :=
    ⟨⟨w, rfl, hw⟩, scopes, lastValue⟩
  obtain ⟨alike, gives⟩ := h start
  generalize act { m with line := line } = r,
    act' { m with world := w, line := line } = r' at alike gives
  cases alike with
  | ok next => exact .ok next (gives _ _ rfl)
  | error next => exact .error (noteFailure_coupled next line)

theorem inCall_couples {act act' : Run α} (name : String)
    (h : Couples (Coupled R kind) G act act') :
    Couples (Coupled R kind) G (inCall name act) (inCall name act') := by
  rintro m _ ⟨⟨w, rfl, hw⟩, scopes, lastValue⟩
  unfold inCall
  dsimp only
  have start : Coupled R kind { m with frames := ⟨name, m.line⟩ :: m.frames }
      { m with world := w, frames := ⟨name, m.line⟩ :: m.frames } :=
    ⟨⟨w, rfl, hw⟩, scopes, lastValue⟩
  obtain ⟨alike, gives⟩ := h start
  generalize act { m with frames := ⟨name, m.line⟩ :: m.frames } = r,
    act' { m with world := w, frames := ⟨name, m.line⟩ :: m.frames } = r' at alike gives
  cases alike with
  | ok next =>
    obtain ⟨⟨w', rfl, hw'⟩, scopes, lastValue⟩ := next
    exact .ok ⟨⟨w', rfl, hw'⟩, scopes, lastValue⟩ (gives _ _ rfl)
  | error next =>
    obtain ⟨⟨w', rfl, hw'⟩, scopes, lastValue⟩ := next
    exact .error ⟨⟨w', rfl, hw'⟩, scopes, lastValue⟩

theorem lookup?_couples (chain : Chain) (name : String) :
    Couples (Coupled R kind) (fun found => ∀ v ∈ found, v.HoldsOnly kind)
      (lookup? chain name) (lookup? chain name) := by
  rintro m _ ⟨⟨w, rfl, hw⟩, scopes, lastValue⟩
  exact .ok ⟨⟨w, rfl, hw⟩, scopes, lastValue⟩ fun _ found => scopes.lookup? found

theorem assign_couples (chain : Chain) (name : String) {v : Value} (hv : v.HoldsOnly kind) :
    Couples (Coupled R kind) (fun _ => True) (assign chain name v) (assign chain name v) := by
  rintro m _ ⟨⟨w, rfl, hw⟩, scopes, lastValue⟩
  exact .ok ⟨⟨w, rfl, hw⟩, scopes.define _ name hv, lastValue⟩ trivial

theorem newScope_couples {bindings : List (String × Value)}
    (hb : ∀ b ∈ bindings, b.2.HoldsOnly kind) :
    Couples (Coupled R kind) (fun _ => True) (newScope bindings) (newScope bindings) := by
  rintro m _ ⟨⟨w, rfl, hw⟩, scopes, lastValue⟩
  exact .ok ⟨⟨w, rfl, hw⟩, scopes.push (Value.holdsOnly_ofList hb), lastValue⟩ trivial

theorem declare_couples (chain : Chain) (functions : List Function) :
    Couples (Coupled R kind) (fun _ => True) (declare chain functions)
      (declare chain functions) := by
  unfold declare
  split
  · exact couples_pure trivial
  · rintro m _ ⟨⟨w, rfl, hw⟩, scopes, lastValue⟩
    refine .ok ⟨⟨w, rfl, hw⟩, ?_, lastValue⟩ trivial
    have bind : ∀ (functions : List Function) (scopes : Scopes), scopes.HoldsOnly kind →
        Scopes.HoldsOnly kind (functions.foldl (fun scopes f =>
          scopes.define (chain.head?.getD 0) f.name (.function ⟨m.entries, f, chain⟩)) scopes) :=
      fun functions => by
        induction functions with
        | nil => exact fun _ start => start
        | cons f rest ih =>
          exact fun _ start => ih _ (start.define _ _ (Value.holdsOnly_of_nil rfl))
    exact bind functions m.scopes scopes

theorem startStep_couples (limits : Limits) :
    Couples (Coupled R kind) (fun _ => True) (startStep limits) (startStep limits) := by
  rintro m _ ⟨⟨w, rfl, hw⟩, scopes, lastValue⟩
  unfold startStep
  split
  · exact .ok ⟨⟨w, rfl, hw⟩, scopes, lastValue⟩ trivial
  · exact .error ⟨⟨w, rfl, hw⟩, scopes, lastValue⟩

theorem keepValue_couples {v : Value} (hv : v.HoldsOnly kind) :
    Couples (Coupled R kind) (fun _ => True) (keepValue v) (keepValue v) := by
  rintro m _ ⟨⟨w, rfl, hw⟩, scopes, lastValue⟩
  exact .ok ⟨⟨w, rfl, hw⟩, scopes, hv⟩ trivial

end Machine

/-! ## Coupled worlds -/

namespace World

/-- The doors through which a program touches its world keep a relation between worlds, as long as
values hold only objects of a kind, and give such values. -/
structure Coupling (R : World → World → Prop) (kind : ObjectRef → Prop) : Prop where
  globals : ∀ ⦃w w'⦄, R w w' → w.context.globals = w'.context.globals
  fits : ∀ ⦃w w'⦄, R w w' → ∀ entry ∈ w.context.globals, entry.2.HoldsOnly kind
  natives : ∀ ⦃w w'⦄, R w w' → w.context.natives = w'.context.natives
  native : ∀ ⦃w w'⦄, R w w' → ∀ f ∈ w.context.natives, ∀ args : List Value,
    (∀ v ∈ args, v.HoldsOnly kind) → Agree R (Value.HoldsOnly kind)
      (World.onContext (Context.onEffects (f.call args)) w)
      (World.onContext (Context.onEffects (f.call args)) w')
  builtin : ∀ (b : Builtin) (console : Bool) (args : List Value), (∀ v ∈ args, v.HoldsOnly kind) →
    Couples R (Value.HoldsOnly kind) (b.call console args) (b.call console args)
  method : ∀ (receiver : Value) (name : String) (args : List Value), receiver.HoldsOnly kind →
    (∀ v ∈ args, v.HoldsOnly kind) → Couples R (Value.HoldsOnly kind)
      (World.onContext (receiver.callMethod name args))
      (World.onContext (receiver.callMethod name args))
  property : ∀ ⦃w w'⦄, R w w' → ∀ (receiver : Value) (name : String), receiver.HoldsOnly kind →
    receiver.property w.context name = receiver.property w'.context name ∧
      ∀ v, receiver.property w.context name = .ok v → v.HoldsOnly kind

variable {R : World → World → Prop} {kind : ObjectRef → Prop}

theorem Coupling.valueOf (C : Coupling R kind) (chain : Chain) (name : String) :
    Couples (Machine.Coupled R kind) (Value.HoldsOnly kind) (Expr.valueOf chain name)
      (Expr.valueOf chain name) := by
  unfold Expr.valueOf
  split
  next b _ => exact couples_pure (Value.holdsOnly_of_nil rfl)
  next =>
    refine couples_get_bind ?_
    rintro m _ ⟨⟨w, rfl, hw⟩, scopes, lastValue⟩
    simp only [← C.globals hw]
    cases found : Entries.find? m.world.context.globals name with
    | some value =>
      exact .ok ⟨⟨w, rfl, hw⟩, scopes, lastValue⟩ (Value.holdsOnly_find? (C.fits hw) found)
    | none =>
      refine (Machine.lookup?_couples chain name).bind (fun found fits => ?_)
        ⟨⟨w, rfl, hw⟩, scopes, lastValue⟩
      cases found with
      | some value => exact couples_pure (fits value rfl)
      | none => exact couples_throw _

theorem Coupling.checkFree (C : Coupling R kind) (name : String) :
    Couples (Machine.Coupled R kind) (fun _ => True) (Target.checkFree name)
      (Target.checkFree name) := by
  unfold Target.checkFree
  refine couples_get_bind ?_
  rintro m _ ⟨⟨w, rfl, hw⟩, scopes, lastValue⟩
  have coupled : Machine.Coupled R kind m { m with world := w } :=
    ⟨⟨w, rfl, hw⟩, scopes, lastValue⟩
  have same : w.context.hasGlobal name = m.world.context.hasGlobal name := by
    rw [Context.hasGlobal, Context.hasGlobal, C.globals hw]
  dsimp only
  rw [same]
  split
  · exact couples_throw _ coupled
  · exact couples_pure trivial coupled

theorem Coupling.native_couples (C : Coupling R kind) (limits : Limits) (f : NativeRef)
    {args : List Value} (description : String) (invoke invoke' : Invoke)
    (fit : ∀ v ∈ args, v.HoldsOnly kind) :
    Couples (Machine.Coupled R kind) (Value.HoldsOnly kind)
      (Rules.callValue ⟨limits, invoke⟩ (.native f) args description)
      (Rules.callValue ⟨limits, invoke'⟩ (.native f) args description) := by
  unfold Rules.callValue
  refine couples_get_bind ?_
  rintro m _ ⟨⟨w, rfl, hw⟩, scopes, lastValue⟩
  simp only [← C.natives hw]
  cases found : m.world.context.natives[f.place]? with
  | none => exact .error ⟨⟨w, rfl, hw⟩, scopes, lastValue⟩
  | some native =>
    exact Machine.onWorld_agree scopes lastValue
      (C.native hw native (List.mem_of_getElem? found) args fit)

/-- The comparison of runs in related worlds. -/
def Coupling.logic (C : Coupling R kind) (limits : Limits) : RunLogic limits limits where
  kind := kind
  Matches := Couples (Machine.Coupled R kind)
  give := couples_pure
  fail := couples_throw
  bind := Couples.bind
  atLine := Machine.atLine_couples
  inCall := Machine.inCall_couples
  lookup? := Machine.lookup?_couples
  assign := Machine.assign_couples
  newScope := Machine.newScope_couples
  declare := Machine.declare_couples
  startStep := Machine.startStep_couples limits
  keepValue := Machine.keepValue_couples
  lastValue := couples_get_bind (by
    rintro m _ ⟨⟨w, rfl, hw⟩, scopes, lastValue⟩
    exact .ok ⟨⟨w, rfl, hw⟩, scopes, lastValue⟩ lastValue)
  setLine := fun line => couples_modify (by
    rintro m _ ⟨⟨w, rfl, hw⟩, scopes, lastValue⟩
    exact ⟨⟨w, rfl, hw⟩, scopes, lastValue⟩)
  valueOf := C.valueOf
  checkFree := C.checkFree
  builtin := fun b _ fit => Machine.onWorld_couples (C.builtin b _ _ fit)
  native := C.native_couples limits
  method := fun name _ fits fit => Machine.onWorld_couples (C.method _ name _ fits fit)
  property := fun name fits => couples_get_bind (by
    rintro m _ ⟨⟨w, rfl, hw⟩, scopes, lastValue⟩
    obtain ⟨same, gives⟩ := C.property hw _ name fits
    simp only [← same]
    exact couples_ofExcept gives ⟨⟨w, rfl, hw⟩, scopes, lastValue⟩)

end World

/-- What starting a step in related worlds comes to. -/
theorem Run.start_coupled {R : World → World → Prop} {kind : ObjectRef → Prop} {act : Run Value}
    (h : Couples (Machine.Coupled R kind) (Value.HoldsOnly kind) act act) {w w' : World}
    (hw : R w w') :
    ∃ (outcome : Except ScriptError Value) (m : Machine) (v : World), R m.world v ∧
      Run.start act w = m.finish outcome ∧
      Run.start act w' = Machine.finish outcome { m with world := v } := by
  obtain ⟨alike, -⟩ := h (Machine.coupled_start hw)
  unfold Run.start
  generalize act { world := w } = r, act { world := w' } = r' at alike
  cases alike with
  | ok next =>
    obtain ⟨⟨v, rfl, hv⟩, -, -⟩ := next
    exact ⟨_, _, v, hv, rfl, rfl⟩
  | error next =>
    obtain ⟨⟨v, rfl, hv⟩, -, -⟩ := next
    exact ⟨_, _, v, hv, rfl, rfl⟩

namespace Program

variable {R : World → World → Prop} {kind : ObjectRef → Prop}

/-- **A program does the same in related worlds**, and leaves related worlds. -/
theorem run_coupled (C : World.Coupling R kind) (limits : Limits) (p : Program) {w w' : World}
    (h : R w w') :
    ∃ (outcome : Except ScriptError Value) (m : Machine) (v : World), R m.world v ∧
      p.run limits w = m.finish outcome ∧
      p.run limits w' = Machine.finish outcome { m with world := v } :=
  Run.start_coupled ((C.logic limits).program ((C.logic limits).callsAt rfl _) p) h

/-- **An event does the same in related worlds**, and leaves related worlds. -/
theorem runEvent_coupled (C : World.Coupling R kind) (limits : Limits) (p : Program)
    (name : String) {args : List Value} (fit : ∀ v ∈ args, v.HoldsOnly kind) {w w' : World}
    (h : R w w') :
    ∃ (outcome : Except ScriptError Value) (m : Machine) (v : World), R m.world v ∧
      p.runEvent limits name args w = m.finish outcome ∧
      p.runEvent limits name args w' = Machine.finish outcome { m with world := v } :=
  Run.start_coupled ((C.logic limits).event ((C.logic limits).callsAt rfl _) p name fit) h

end Program

/-! ## Relations that any values keep -/

/-- The doors through which a program touches its world keep a relation between worlds. -/
structure World.Simulation (R : World → World → Prop) : Prop where
  globals : ∀ ⦃w w'⦄, R w w' → w.context.globals = w'.context.globals
  natives : ∀ ⦃w w'⦄, R w w' → w.context.natives = w'.context.natives
  native : ∀ ⦃w w'⦄, R w w' → ∀ f ∈ w.context.natives, ∀ args,
    Alike R (World.onContext (Context.onEffects (f.call args)) w)
      (World.onContext (Context.onEffects (f.call args)) w')
  builtin : ∀ (b : Builtin) (console : Bool) (args : List Value), Respects R (b.call console args)
  method : ∀ (receiver : Value) (name : String) (args : List Value),
    Respects R (World.onContext (receiver.callMethod name args))
  property : ∀ ⦃w w'⦄, R w w' → ∀ (receiver : Value) (name : String),
    receiver.property w.context name = receiver.property w'.context name

/-- All objects are of the kind that asks nothing. -/
theorem Value.holdsOnly_any (v : Value) : v.HoldsOnly fun _ => True := fun _ _ => trivial

theorem Act.Respects.couples {σ : Type} {R : σ → σ → Prop} {act : Act σ Value}
    (h : Respects R act) : Couples R (Value.HoldsOnly fun _ => True) act act :=
  fun _ _ hs => ⟨h hs, fun v _ _ => v.holdsOnly_any⟩

theorem World.Simulation.coupling {R : World → World → Prop} (sim : World.Simulation R) :
    World.Coupling R fun _ => True where
  globals := sim.globals
  fits := fun _ _ _ entry _ => entry.2.holdsOnly_any
  natives := sim.natives
  native := fun _ _ h f lent args _ => ⟨sim.native h f lent args, fun v _ _ => v.holdsOnly_any⟩
  builtin := fun b console args _ => (sim.builtin b console args).couples
  method := fun receiver name args _ _ => (sim.method receiver name args).couples
  property := fun _ _ h receiver name _ => ⟨sim.property h receiver name, fun v _ => v.holdsOnly_any⟩

namespace Program

variable {R : World → World → Prop}

/-- A program does the same in worlds that a simulation relates. -/
theorem run_alike (sim : World.Simulation R) (limits : Limits) (p : Program) {w w' : World}
    (h : R w w') :
    ∃ (outcome : Except ScriptError Value) (m : Machine) (v : World), R m.world v ∧
      p.run limits w = m.finish outcome ∧
      p.run limits w' = Machine.finish outcome { m with world := v } :=
  p.run_coupled sim.coupling limits h

/-- An event does the same in worlds that a simulation relates. -/
theorem runEvent_alike (sim : World.Simulation R) (limits : Limits) (p : Program) (name : String)
    (args : List Value) {w w' : World} (h : R w w') :
    ∃ (outcome : Except ScriptError Value) (m : Machine) (v : World), R m.world v ∧
      p.runEvent limits name args w = m.finish outcome ∧
      p.runEvent limits name args w' = Machine.finish outcome { m with world := v } :=
  p.runEvent_coupled sim.coupling limits name (fun v _ => v.holdsOnly_any) h

end Program

end SheetScript
