import SheetScript.Proofs.Run.Bindings
import SheetScript.Proofs.Value.Hoisted

/-!
# Steps that do not look into functions

Two runs may work with values that are the same but for the places of declarations in the bodies of
functions. Only a call of such a function looks into its body.

* `Act.Mirrors` compares two steps: they fail alike, or give what looks alike.
* `Scopes.hoisted` are the scopes with hoisted functions; `Scopes.declare_hoisted` says that it does
  not matter in which order a block declares functions of different names.
* `Context.Discreet` asks of the host what the language itself keeps: not to look into functions.
* `Builtin.call_mirrors`, `Value.callMethod_mirrors` and `Value.property_same` are the doors through
  which a program touches its world.
-/

namespace SheetScript

open Relation

/-! ## Steps that end alike -/

namespace Act

variable {σ α β γ δ : Type} {R S T : σ → σ → Prop} {look : α → β} {look' : γ → δ}

/-- Two steps fail alike, or give what looks alike; and they leave related states. -/
inductive Resembles (S : σ → σ → Prop) (look : α → β) :
    EStateM.Result ScriptError σ α → EStateM.Result ScriptError σ α → Prop
  | ok {a a' : α} {s s' : σ} (same : look a = look a') (h : S s s') :
      Resembles S look (.ok a s) (.ok a' s')
  | error {e : ScriptError} {s s' : σ} (h : S s s') : Resembles S look (.error e s) (.error e s')

/-- From related states, two steps end alike. -/
def Mirrors (R S : σ → σ → Prop) (look : α → β) (act act' : Act σ α) : Prop :=
  ∀ ⦃s s' : σ⦄, R s s' → Resembles S look (act s) (act' s')

theorem Resembles.mono {r r' : EStateM.Result ScriptError σ α} (h : Resembles S look r r')
    (le : ∀ s s', S s s' → T s s') : Resembles T look r r' := by
  cases h with
  | ok same h => exact .ok same (le _ _ h)
  | error h => exact .error (le _ _ h)

theorem Resembles.symm {r r' : EStateM.Result ScriptError σ α} (h : Resembles S look r r')
    (sym : ∀ s s', S s s' → T s' s) : Resembles T look r' r := by
  cases h with
  | ok same h => exact .ok same.symm (sym _ _ h)
  | error h => exact .error (sym _ _ h)

theorem Resembles.trans {r r' r'' : EStateM.Result ScriptError σ α} {U : σ → σ → Prop}
    (h : Resembles R look r r') (h' : Resembles S look r' r'')
    (tr : ∀ s s' s'', R s s' → S s' s'' → U s s'') : Resembles U look r r'' := by
  cases h with
  | ok same h =>
    cases h' with
    | ok same' h' => exact .ok (same.trans same') (tr _ _ _ h h')
  | error h =>
    cases h' with
    | error h' => exact .error (tr _ _ _ h h')

/-- What is the same looks alike. -/
theorem Resembles.of_id {r r' : EStateM.Result ScriptError σ α} (h : Resembles S id r r') :
    Resembles S look r r' := by
  cases h with
  | ok same h => exact .ok (congrArg look same) h
  | error h => exact .error h

theorem resembles_self (refl : ∀ s, S s s) (r : EStateM.Result ScriptError σ α) :
    Resembles S look r r := by
  cases r with
  | ok a s => exact .ok rfl (refl s)
  | error e s => exact .error (refl s)

theorem Mirrors.mono {act act' : Act σ α} (h : Mirrors R S look act act')
    (le : ∀ s s', S s s' → T s s') : Mirrors R T look act act' := fun _ _ hs => (h hs).mono le

theorem Mirrors.of_le {act act' : Act σ α} (h : Mirrors S T look act act')
    (le : ∀ s s', R s s' → S s s') : Mirrors R T look act act' := fun _ _ hs => h (le _ _ hs)

theorem mirrors_pure {a a' : α} (same : look a = look a') :
    Mirrors R R look (pure a : Act σ α) (pure a') := fun _ _ h => .ok same h

theorem mirrors_throw (e : ScriptError) : Mirrors R R look (throw e : Act σ α) (throw e) :=
  fun _ _ h => .error h

theorem mirrors_ofExcept {result result' : Except ScriptError α}
    (same : result.map look = result'.map look) :
    Mirrors R R look (MonadExcept.ofExcept result : Act σ α) (MonadExcept.ofExcept result') := by
  cases result with
  | ok a =>
    cases result' with
    | ok a' => exact mirrors_pure (Except.ok.inj same)
    | error e => cases same
  | error e =>
    cases result' with
    | ok a' => cases same
    | error e' =>
      cases same
      exact mirrors_throw e

theorem Mirrors.bind {act act' : Act σ α} {f f' : α → Act σ γ} (h : Mirrors R S look act act')
    (le : ∀ s s', S s s' → T s s')
    (hf : ∀ a a', look a = look a' → Mirrors S T look' (f a) (f' a')) :
    Mirrors R T look' (act >>= f) (act' >>= f') := by
  intro s s' hs
  have first := h hs
  change Resembles T look' (EStateM.bind act f s) (EStateM.bind act' f' s')
  unfold EStateM.bind
  generalize act s = r, act' s' = r' at first
  cases first with
  | ok same next => exact hf _ _ same next
  | error next => exact .error (le _ _ next)

/-- Two steps one after the other, in states that stay in a relation. -/
theorem Mirrors.then {act act' : Act σ α} {f f' : α → Act σ γ} (h : Mirrors R R look act act')
    (hf : ∀ a a', look a = look a' → Mirrors R R look' (f a) (f' a')) :
    Mirrors R R look' (act >>= f) (act' >>= f') := h.bind (fun _ _ hs => hs) hf

theorem mirrors_get_bind {f f' : σ → Act σ α}
    (h : ∀ ⦃s s' : σ⦄, R s s' → Resembles S look (f s s) (f' s' s')) :
    Mirrors R S look (get >>= f) (get >>= f') := fun _ _ hs => h hs

theorem mirrors_modify {f f' : σ → σ} (h : ∀ ⦃s s' : σ⦄, R s s' → S (f s) (f' s')) :
    Mirrors R S id (modify f : Act σ Unit) (modify f') := fun _ _ hs => .ok rfl (h hs)

end Act

open Act

/-! ## Scopes with hoisted functions -/

namespace Scopes

variable (scopes : Scopes) (chain : Chain) (name : String)

/-- Scopes with the functions in them hoisted. -/
def hoisted (scopes : Scopes) : Scopes := scopes.map (Entries.mapValues Value.hoisted)

theorem binding?_hoisted (place : Nat) :
    scopes.hoisted.binding? place name = (scopes.binding? place name).map Value.hoisted := by
  rw [binding?, binding?, ← Entries.find?_mapValues]
  congr 1
  simp only [hoisted, Array.getD_eq_getD_getElem?, Array.getElem?_map]
  cases scopes[place]? <;> rfl

theorem lookup?_hoisted :
    scopes.hoisted.lookup? chain name = (scopes.lookup? chain name).map Value.hoisted := by
  unfold lookup?
  induction chain with
  | nil => rfl
  | cons place rest ih =>
    rw [List.findSome?_cons, List.findSome?_cons, binding?_hoisted, ih]
    cases scopes.binding? place name <;> rfl

theorem owner_hoisted : scopes.hoisted.owner chain name = scopes.owner chain name := by
  simp only [owner, binding?_hoisted, Option.isSome_map]

theorem define_hoisted (place : Nat) (v : Value) :
    (scopes.define place name v).hoisted = scopes.hoisted.define place name v.hoisted := by
  refine Array.ext_getElem? fun i => ?_
  simp only [hoisted, define, Array.getElem?_map, Array.getElem?_modify]
  split
  · cases scopes[i]? with
    | none => rfl
    | some bindings => exact congrArg some (Entries.insert_mapValues ..).symm
  · rfl

theorem assign_hoisted (v : Value) :
    (scopes.assign chain name v).hoisted = scopes.hoisted.assign chain name v.hoisted := by
  rw [assign, assign, define_hoisted, owner_hoisted]

theorem push_hoisted (bindings : List (String × Value)) :
    hoisted (scopes.push (Entries.ofList bindings)) =
      scopes.hoisted.push (Entries.ofList (Entries.mapValues Value.hoisted bindings)) := by
  rw [hoisted, Array.map_push, Entries.ofList_mapValues]
  rfl

theorem size_hoisted : scopes.hoisted.size = scopes.size := Array.size_map

/-- It does not matter which of two names is bound first. -/
theorem define_comm (place : Nat) {name name' : String} (apart : name ≠ name') (v v' : Value) :
    (scopes.define place name v).define place name' v' =
      (scopes.define place name' v').define place name v := by
  refine Array.ext_getElem? fun i => ?_
  simp only [define, Array.getElem?_modify]
  split
  · cases scopes[i]? with
    | none => rfl
    | some bindings => exact congrArg some (Entries.insert_comm bindings apart v v')
  · rfl

variable (entry : Nat)

theorem declare_cons (f : Function) (functions : List Function) :
    scopes.declare entry chain (f :: functions) =
      (scopes.define (chain.head?.getD 0) f.name (.function ⟨entry, f, chain⟩)).declare entry chain
        functions := rfl

/-- A declaration may be bound where it stands in a hoisted block. -/
theorem declare_insertIn (block : List Stmt) (s : Stmt) :
    scopes.declare entry chain (Stmt.functions (Stmt.insertIn block s)) =
      scopes.declare entry chain (Stmt.functions (s :: block)) := by
  induction block generalizing scopes with
  | nil => rfl
  | cons t rest ih =>
    obtain here | later := le_or_gt s.rank t.rank
    · rw [Stmt.insertIn_cons_of_le here]
    · obtain ⟨g, declares⟩ := Stmt.exists_function_of_rank_lt later
      rw [Stmt.insertIn_cons_of_lt later, Stmt.functions_of_some declares, declare_cons, ih]
      cases own : s.function? with
      | none =>
        rw [Stmt.functions_of_none own, Stmt.functions_of_none own,
          Stmt.functions_of_some declares, declare_cons]
      | some f =>
        have apart : g.name ≠ f.name := fun same => by
          refine later.ne (Stmt.rank_eq_iff.2 ?_)
          rw [Stmt.declares?, Stmt.declares?, declares, own, Option.map_some, Option.map_some, same]
        rw [Stmt.functions_of_some own, Stmt.functions_of_some own,
          Stmt.functions_of_some declares, declare_cons, declare_cons, declare_cons,
          define_comm _ _ apart]

theorem declare_hoisted (block : List Stmt) :
    (scopes.declare entry chain (Stmt.functions block)).hoisted =
      scopes.hoisted.declare entry chain (Stmt.functions (Stmt.hoistedAll block)) := by
  induction block generalizing scopes with
  | nil => rfl
  | cons s rest ih =>
    rw [Stmt.hoistedAll, declare_insertIn]
    have own := s.function?_hoisted
    cases declares : s.function? with
    | none =>
      rw [declares] at own
      rw [Stmt.functions_of_none declares, Stmt.functions_of_none own, ih]
    | some f =>
      rw [declares] at own
      rw [Stmt.functions_of_some declares, Stmt.functions_of_some own, declare_cons, declare_cons,
        ih, define_hoisted]
      rfl

end Scopes

/-! ## What the host lends -/

/-- The functions and methods that the host lends do not look into the bodies of functions: they
cannot tell arguments apart that differ in the places of declarations only. -/
structure Context.Discreet (c : Context) : Prop where
  native : ∀ f ∈ c.natives, ∀ {args args' : List Value},
    args.map Value.hoisted = args'.map Value.hoisted →
    Mirrors Eq Eq Value.hoisted (f.call args) (f.call args')
  object : ∀ o ∈ c.objects, ∀ (name : String) {args args' : List Value},
    args.map Value.hoisted = args'.map Value.hoisted →
    Mirrors Eq Eq Value.hoisted (o.call name args) (o.call name args')

/-- The same context, that of a discreet host. -/
def Context.Shared (c c' : Context) : Prop := c = c' ∧ c.Discreet

/-- The same world, with a discreet host. -/
def World.Shared (w w' : World) : Prop := w = w' ∧ w.context.Discreet

theorem Context.Discreet.of_change {c c' : Context} (h : c.Discreet) (change : c.Change c') :
    c'.Discreet := by
  cases change <;> exact ⟨h.native, h.object⟩

theorem World.Discreet.of_changes {w w' : World} (h : w.context.Discreet)
    (path : ReflTransGen World.Change w w') : w'.context.Discreet := by
  have lent := World.SameLent.of_changes path
  exact ⟨lent.natives ▸ h.native, lent.objects ▸ h.object⟩

namespace Act

variable {α β : Type} {look : α → β}

/-- Two steps that go by changes end alike, if what they give looks alike from each state. -/
theorem mirrors_of_map_eq {act act' : Act Context α} (same : look <$> act = look <$> act')
    (goes : Goes Context.Change act) : Mirrors Context.Shared Context.Shared look act act' := by
  rintro c _ ⟨rfl, discreet⟩
  have kept : (act.left c).Discreet := by
    have path := goes c
    generalize act.left c = c' at path
    induction path with
    | refl => exact discreet
    | tail _ change ih => exact ih.of_change change
  have ends : EStateM.map look act c = EStateM.map look act' c := congrFun same c
  unfold EStateM.map at ends
  unfold left at kept
  generalize act c = r, act' c = r' at ends kept
  cases r with
  | ok a next =>
    cases r' with
    | ok a' next' =>
      obtain ⟨alike, rfl⟩ := EStateM.Result.ok.inj ends
      exact .ok alike ⟨rfl, kept⟩
    | error e next' => nomatch ends
  | error e next =>
    cases r' with
    | ok a' next' => nomatch ends
    | error e' next' =>
      obtain ⟨rfl, rfl⟩ := EStateM.Result.error.inj ends
      exact .error ⟨rfl, kept⟩

/-- A step that goes by changes ends alike with itself. -/
theorem mirrors_of_goes {act : Act Context α} (goes : Goes Context.Change act) :
    Mirrors Context.Shared Context.Shared look act act := mirrors_of_map_eq rfl goes

/-- What the host does keeps it discreet. -/
theorem resembles_onEffects {act act' : Act Effects α} (h : Mirrors Eq Eq look act act')
    {c : Context} (discreet : c.Discreet) :
    Resembles Context.Shared look (Context.onEffects act c) (Context.onEffects act' c) := by
  unfold Context.onEffects Act.on
  dsimp only
  have inner := h (rfl : c.effects = c.effects)
  generalize act c.effects = r, act' c.effects = r' at inner
  cases inner with
  | ok same next =>
    subst next
    exact .ok same ⟨rfl, discreet.native, discreet.object⟩
  | error next =>
    subst next
    exact .error ⟨rfl, discreet.native, discreet.object⟩

theorem mirrors_onContext {act act' : Act Context α}
    (h : Mirrors Context.Shared Context.Shared look act act') :
    Mirrors World.Shared World.Shared look (World.onContext act) (World.onContext act') := by
  rintro w _ ⟨rfl, discreet⟩
  unfold World.onContext Act.on
  dsimp only
  have inner := h ⟨rfl, discreet⟩
  generalize act w.context = r, act' w.context = r' at inner
  cases inner with
  | ok same next =>
    obtain ⟨rfl, discreet⟩ := next
    exact .ok same ⟨rfl, discreet⟩
  | error next =>
    obtain ⟨rfl, discreet⟩ := next
    exact .error ⟨rfl, discreet⟩

end Act

/-! ## The doors of a program -/

section Doors

variable {args args' : List Value} (same : args.map Value.hoisted = args'.map Value.hoisted)
include same

theorem Builtin.call_mirrors (b : Builtin) (console : Bool) :
    Mirrors World.Shared World.Shared Value.hoisted (b.call console args)
      (b.call console args') := by
  have eq : b.call console args = b.call console args' := by
    rw [← b.call_hoisted, same, b.call_hoisted]
  rw [eq]
  rintro w _ ⟨rfl, discreet⟩
  have kept := World.Discreet.of_changes discreet (b.call_changes console args' w)
  unfold left at kept
  cases run : b.call console args' w with
  | ok a c' =>
    rw [run] at kept
    exact .ok rfl ⟨rfl, kept⟩
  | error e c' =>
    rw [run] at kept
    exact .error ⟨rfl, kept⟩

theorem onlyArg_same (name : String) :
    (onlyArg name args).map Value.hoisted = (onlyArg name args').map Value.hoisted := by
  rw [← onlyArg_hoisted, same, onlyArg_hoisted]

namespace ObjectRef

theorem callHandle_mirrors (attr name method : String) :
    Mirrors Context.Shared Context.Shared Value.hoisted (callHandle attr name method args)
      (callHandle attr name method args') := by
  have adjusts : ∀ combine, adjust method attr name combine args =
      adjust method attr name combine args' := fun combine => by
    rw [← adjust_hoisted, same, adjust_hoisted]
  have arity : checkArity method args 0 = checkArity method args' 0 := by
    rw [← checkArity_hoisted, same, checkArity_hoisted]
  unfold callHandle
  rw [adjusts, adjusts, arity]
  split
  · refine (mirrors_ofExcept (onlyArg_same same method)).then fun value value' alike => ?_
    have writes : write attr value = write attr value' := by
      rw [← write_hoisted, alike, write_hoisted]
    have written : Mirrors Context.Shared Context.Shared id (write attr value')
        (write attr value') := mirrors_of_goes (write_goes attr value')
    rw [writes]
    exact written.then fun _ _ _ => mirrors_pure alike
  · split
    · exact mirrors_of_goes (adjust_goes method attr name _ args')
    · split
      · exact mirrors_of_goes (adjust_goes method attr name _ args')
      · split
        · exact mirrors_of_goes
            ((goes_ofExcept _).bind fun _ => goes_get_bind fun c => goes_pure _ c)
        · exact mirrors_throw _

theorem call_mirrors (o : ObjectRef) (name : String) :
    Mirrors Context.Shared Context.Shared Value.hoisted (o.call name args) (o.call name args') := by
  cases o with
  | owner =>
    have eq : callOwner name args = callOwner name args' := by
      rw [← callOwner_hoisted, same, callOwner_hoisted]
    change Mirrors _ _ _ (callOwner name args) (callOwner name args')
    rw [eq]
    exact mirrors_of_goes (callOwner_goes Context.Change.asides name args')
  | handle _ attr attrName => exact callHandle_mirrors same attr attrName name
  | custom place type =>
    refine mirrors_get_bind ?_
    rintro c _ ⟨rfl, discreet⟩
    cases found : c.objects[place]? with
    | none => exact .error ⟨rfl, discreet⟩
    | some object =>
      exact resembles_onEffects
        (discreet.object object (List.mem_of_getElem? found) name same) discreet

end ObjectRef

/-- **A method does not look into functions.** -/
theorem Value.callMethod_mirrors {receiver receiver' : Value}
    (alike : receiver.hoisted = receiver'.hoisted) (name : String) :
    Mirrors Context.Shared Context.Shared Value.hoisted (receiver.callMethod name args)
      (receiver'.callMethod name args') := by
  have array : ∀ {items items' : List Value}, items.map hoisted = items'.map hoisted →
      Mirrors Context.Shared Context.Shared hoisted ((array items).callMethod name args)
        ((array items').callMethod name args') := fun {items items'} h => by
    unfold callMethod
    dsimp only
    split
    · next m _ =>
      refine mirrors_of_map_eq ?_ (m.call_goes Context.Change.asides items args)
      rw [← m.call_hoisted, ← m.call_hoisted, h, same]
    · exact mirrors_throw _
  cases Value.alike_of_hoisted_eq alike with
  | array h => exact array h
  | map | function => exact mirrors_throw _
  | same =>
    cases receiver with
    | array items => exact array rfl
    | chart t =>
      unfold callMethod
      dsimp only
      split
      · next m _ =>
        have eq : m.call t args = m.call t args' := by
          rw [← m.call_hoisted, same, m.call_hoisted]
        rw [eq]
        exact mirrors_of_goes (m.call_goes Context.Change.asides t args')
      · exact mirrors_throw _
    | row r =>
      unfold callMethod
      dsimp only
      split
      · next m _ =>
        rw [← m.call_hoisted, same, m.call_hoisted]
        exact mirrors_ofExcept rfl
      · exact mirrors_throw _
    | object o => exact o.call_mirrors same name
    | _ => exact mirrors_throw _

end Doors

theorem Value.property_same {receiver receiver' : Value}
    (alike : receiver.hoisted = receiver'.hoisted) (c : Context) (name : String) :
    (receiver.property c name).map hoisted = (receiver'.property c name).map hoisted := by
  cases Value.alike_of_hoisted_eq alike with
  | same => rfl
  | array | function => rfl
  | @map entries entries' h =>
    have found := find?_hoisted entries name
    rw [h, find?_hoisted] at found
    exact congrArg Except.ok found.symm

end SheetScript
