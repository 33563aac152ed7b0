import SheetScript.Proofs.Run.Change
import SheetScript.Proofs.Value.Hereditary

/-!
# The names that a program binds

A block binds names by its assignments, its loops and the functions that it declares, in the scopes
that it sees. The parameters of a function are bound in a scope of the call, which nothing has seen
before.

* `Stmt.BindsOnly` says of a statement, and of the statements in it, that they bind only names of a
  kind; `Value.BindsOnly` says so of the functions in a value.
* `Context.LendsOnly` says that the host lends only values with a property, as long as it is given
  only such values. A run does not change what the host lends (`World.SameLent`).
* `Builtin.gives_call`, `Value.gives_callMethod` and `Value.gives_property`: the doors to the world
  give only values with a hereditary property.
-/

namespace SheetScript

open Relation Act

/-! ## The names that a block binds -/

/-- The variable that an expression is a place of. -/
def Expr.root? : Expr → Option String
  | .variable name => some name
  | .index object _ => object.root?
  | _ => none

/-- An assignment binds only names of a kind. -/
def Target.BindsOnly (binds : String → Prop) : Target → Prop
  | .variable name => binds name
  | .index object _ => ∀ name ∈ object.root?, binds name

namespace Stmt

mutual

/-- A statement, and what is in it, binds only names of a kind. -/
def BindsOnly (binds : String → Prop) : Stmt → Prop
  | .expression _ _ => True
  | .assign _ target _ _ => target.BindsOnly binds
  | .choose _ branches otherwise =>
    BranchesBindOnly binds branches ∧ OtherwiseBindsOnly binds otherwise
  | .loop _ name _ body => binds name ∧ BlockBindsOnly binds body
  | .function _ name _ body => binds name ∧ BlockBindsOnly binds body
  | .leave _ _ => True

/-- The blocks of some conditions bind only names of a kind. -/
def BranchesBindOnly (binds : String → Prop) : List (Expr × List Stmt) → Prop
  | [] => True
  | (_, body) :: rest => BlockBindsOnly binds body ∧ BranchesBindOnly binds rest

/-- The block for when no condition holds binds only names of a kind. -/
def OtherwiseBindsOnly (binds : String → Prop) : Option (List Stmt) → Prop
  | none => True
  | some body => BlockBindsOnly binds body

/-- The statements of a block bind only names of a kind. -/
def BlockBindsOnly (binds : String → Prop) : List Stmt → Prop
  | [] => True
  | stmt :: rest => stmt.BindsOnly binds ∧ BlockBindsOnly binds rest

end

variable {binds : String → Prop}

theorem blockBindsOnly_iff {block : List Stmt} :
    BlockBindsOnly binds block ↔ ∀ stmt ∈ block, stmt.BindsOnly binds := by
  induction block with
  | nil => simp [BlockBindsOnly]
  | cons stmt rest ih => simp [BlockBindsOnly, ih]

mutual

theorem bindsOnly_of_forall (all : ∀ name, binds name) : ∀ stmt : Stmt, stmt.BindsOnly binds
  | .expression _ _ => trivial
  | .assign _ (.variable name) _ _ => all name
  | .assign _ (.index _ _) _ _ => fun name _ => all name
  | .choose _ branches otherwise =>
    ⟨branchesBindOnly_of_forall all branches, otherwiseBindsOnly_of_forall all otherwise⟩
  | .loop _ name _ body => ⟨all name, blockBindsOnly_of_forall all body⟩
  | .function _ name _ body => ⟨all name, blockBindsOnly_of_forall all body⟩
  | .leave _ _ => trivial

theorem branchesBindOnly_of_forall (all : ∀ name, binds name) :
    ∀ branches : List (Expr × List Stmt), BranchesBindOnly binds branches
  | [] => trivial
  | (_, body) :: rest => ⟨blockBindsOnly_of_forall all body, branchesBindOnly_of_forall all rest⟩

theorem otherwiseBindsOnly_of_forall (all : ∀ name, binds name) :
    ∀ otherwise : Option (List Stmt), OtherwiseBindsOnly binds otherwise
  | none => trivial
  | some body => blockBindsOnly_of_forall all body

theorem blockBindsOnly_of_forall (all : ∀ name, binds name) :
    ∀ block : List Stmt, BlockBindsOnly binds block
  | [] => trivial
  | stmt :: rest => ⟨bindsOnly_of_forall all stmt, blockBindsOnly_of_forall all rest⟩

end

end Stmt

/-- A declared function binds only names of a kind, in the scopes that it sees. -/
def Function.BindsOnly (binds : String → Prop) (f : Function) : Prop :=
  Stmt.BlockBindsOnly binds f.body

theorem Stmt.bindsOnly_of_mem_functions {binds : String → Prop} {block : List Stmt}
    (h : BlockBindsOnly binds block) {f : Function} (mem : f ∈ functions block) :
    binds f.name ∧ f.BindsOnly binds := by
  obtain ⟨stmt, mem, declares⟩ := List.mem_filterMap.1 mem
  have only := blockBindsOnly_iff.1 h stmt mem
  cases stmt with
  | function line name params body =>
    obtain rfl := Option.some.inj declares
    rwa [BindsOnly] at only
  | _ => nomatch declares

/-! ## The functions in a value -/

namespace Value

mutual

/-- The functions in a value bind only names of a kind, in the scopes that they see. -/
def BindsOnly (binds : String → Prop) : Value → Prop
  | array items => ItemsBindOnly binds items
  | map entries => EntriesBindOnly binds entries
  | function f => f.decl.BindsOnly binds
  | _ => True

/-- The functions in the items of an array bind only names of a kind. -/
def ItemsBindOnly (binds : String → Prop) : List Value → Prop
  | [] => True
  | v :: rest => v.BindsOnly binds ∧ ItemsBindOnly binds rest

/-- The functions in the entries of a map bind only names of a kind. -/
def EntriesBindOnly (binds : String → Prop) : List (String × Value) → Prop
  | [] => True
  | (_, v) :: rest => v.BindsOnly binds ∧ EntriesBindOnly binds rest

end

variable {binds : String → Prop}

theorem bindsOnly_array {items : List Value} :
    BindsOnly binds (array items) ↔ ∀ v ∈ items, v.BindsOnly binds := by
  rw [BindsOnly]
  induction items with
  | nil => simp [ItemsBindOnly]
  | cons v rest ih => simp [ItemsBindOnly, ih]

theorem bindsOnly_map {entries : List (String × Value)} :
    BindsOnly binds (map entries) ↔ ∀ entry ∈ entries, entry.2.BindsOnly binds := by
  rw [BindsOnly]
  induction entries with
  | nil => simp [EntriesBindOnly]
  | cons entry rest ih =>
    obtain ⟨key, v⟩ := entry
    simp [EntriesBindOnly, ih]

mutual

theorem bindsOnly_of_forall (all : ∀ name, binds name) : ∀ v : Value, v.BindsOnly binds
  | array items => itemsBindOnly_of_forall all items
  | map entries => entriesBindOnly_of_forall all entries
  | function f => Stmt.blockBindsOnly_of_forall all f.decl.body
  | null | bool _ | number _ | string _ | builtin _ | native _ | chart _ | row _ | object _ =>
    trivial

theorem itemsBindOnly_of_forall (all : ∀ name, binds name) :
    ∀ items : List Value, ItemsBindOnly binds items
  | [] => trivial
  | v :: rest => ⟨bindsOnly_of_forall all v, itemsBindOnly_of_forall all rest⟩

theorem entriesBindOnly_of_forall (all : ∀ name, binds name) :
    ∀ entries : List (String × Value), EntriesBindOnly binds entries
  | [] => trivial
  | (_, v) :: rest => ⟨bindsOnly_of_forall all v, entriesBindOnly_of_forall all rest⟩

end

theorem hereditary_bindsOnly (binds : String → Prop) : Hereditary (BindsOnly binds) where
  null := trivial
  bool _ := trivial
  number _ := trivial
  string _ := trivial
  chart _ := trivial
  row _ := trivial
  array := bindsOnly_array
  map := bindsOnly_map

end Value

/-! ## What the host lends -/

/-- The host lends only values with a property, as long as it is given only such values. -/
structure Context.LendsOnly (P : Value → Prop) (c : Context) : Prop where
  globals : ∀ entry ∈ c.globals, P entry.2
  natives : ∀ f ∈ c.natives, ∀ args, (∀ v ∈ args, P v) →
    ∀ e v e', f.call args e = .ok v e' → P v
  objects : ∀ o ∈ c.objects, ∀ name args, (∀ v ∈ args, P v) →
    ∀ e v e', o.call name args e = .ok v e' → P v
  properties : ∀ o ∈ c.objects, ∀ name v, o.property name = .ok v → P v

theorem Context.LendsOnly.of_forall {P : Value → Prop} (all : ∀ v, P v) {c : Context} :
    c.LendsOnly P :=
  ⟨fun entry _ => all entry.2, fun _ _ _ _ _ v _ _ => all v, fun _ _ _ _ _ _ v _ _ => all v,
    fun _ _ _ v _ => all v⟩

/-- The host lends the same in two worlds. -/
structure World.SameLent (w w' : World) : Prop where
  globals : w'.context.globals = w.context.globals
  natives : w'.context.natives = w.context.natives
  objects : w'.context.objects = w.context.objects

namespace World.SameLent

variable {w w' w'' : World}

protected theorem refl (w : World) : w.SameLent w := ⟨rfl, rfl, rfl⟩

theorem trans (h : w.SameLent w') (h' : w'.SameLent w'') : w.SameLent w'' :=
  ⟨h'.globals.trans h.globals, h'.natives.trans h.natives, h'.objects.trans h.objects⟩

theorem lendsOnly {P : Value → Prop} (h : w.SameLent w') (lends : w.context.LendsOnly P) :
    w'.context.LendsOnly P where
  globals := h.globals ▸ lends.globals
  natives := h.natives ▸ lends.natives
  objects := h.objects ▸ lends.objects
  properties := h.objects ▸ lends.properties

/-- **No change of a run is a change of what the host lends.** -/
theorem of_changes (h : ReflTransGen World.Change w w') : w.SameLent w' := by
  induction h with
  | refl => exact .refl w
  | tail _ change ih =>
    refine ih.trans ?_
    cases change with
    | context change => cases change <;> exact ⟨rfl, rfl, rfl⟩
    | subscribe => exact ⟨rfl, rfl, rfl⟩

end World.SameLent

/-! ## What steps give -/

namespace Act

variable {σ τ α β : Type} {s : σ} {G : α → Prop}

/-- What a step gives from a state, if it gives something, has a property. -/
def Gives (act : Act σ α) (s : σ) (G : α → Prop) : Prop := ∀ a s', act s = .ok a s' → G a

theorem gives_pure {a : α} (h : G a) : Gives (pure a) s G := by
  rintro _ _ ⟨⟩
  exact h

theorem gives_throw (e : ScriptError) : Gives (throw e) s G := by
  rintro _ _ ⟨⟩

theorem gives_ofExcept {result : Except ScriptError α} (h : ∀ a, result = .ok a → G a) :
    Gives (MonadExcept.ofExcept result) s G := by
  cases result with
  | ok a => exact gives_pure (h a rfl)
  | error e => exact gives_throw e

theorem Gives.bind {act : Act σ α} {f : α → Act σ β} {H : β → Prop} (h : Gives act s G)
    (next : ∀ a s', G a → Gives (f a) s' H) : Gives (act >>= f) s H := by
  intro b s' run
  obtain ⟨a, t, first, rest⟩ := exists_of_bind_eq_ok run
  exact next a t (h a t first) b s' rest

theorem gives_bind {act : Act σ α} {f : α → Act σ β} {H : β → Prop}
    (next : ∀ a s', Gives (f a) s' H) : Gives (act >>= f) s H :=
  Gives.bind (fun _ _ _ => trivial : Gives act s fun _ => True) fun a s' _ => next a s'

theorem gives_get_bind {f : σ → Act σ α} (h : Gives (f s) s G) : Gives (get >>= f) s G := h

theorem gives_ofExcept_bind {result : Except ScriptError α} {f : α → Act σ β} {H : β → Prop}
    (next : ∀ a, result = .ok a → Gives (f a) s H) :
    Gives (MonadExcept.ofExcept result >>= f) s H := by
  cases result with
  | ok a => exact next a rfl
  | error e => exact fun _ _ run => nomatch run

theorem gives_on [Inhabited τ] {get : σ → τ} {set : σ → τ → σ} {act : Act τ α}
    (h : Gives act (get s) G) : Gives (Act.on get set act) s G := by
  intro a s' run
  unfold Act.on at run
  dsimp only at run
  cases inside : act (get s) with
  | ok b part =>
    rw [inside] at run
    exact (EStateM.Result.ok.inj run).1 ▸ h b part inside
  | error e part =>
    rw [inside] at run
    nomatch run

end Act

/-! ## The doors of a program -/

section Doors

variable {P : Value → Prop} (H : Value.Hereditary P)
include H

theorem Builtin.gives_call (b : Builtin) (console : Bool) (args : List Value) (w : World) :
    Gives (b.call console args) w P := by
  unfold call
  split
  · exact gives_bind fun _ _ => gives_pure H.null
  · exact gives_bind fun _ _ => gives_bind fun _ _ => gives_pure H.null
  · exact gives_bind fun _ _ => gives_pure H.null
  · exact gives_bind fun _ _ => gives_bind fun _ _ => gives_pure (H.chart _)
  · refine gives_ofExcept fun v given => ?_
    cases looks : b.pure? args with
    | none =>
      rw [looks] at given
      exact Except.ok.inj given ▸ H.null
    | some result =>
      rw [looks] at given
      exact H.pure? b (looks.trans (congrArg some given))

theorem ChartMethod.gives_call (m : ChartMethod) (t : Table) (args : List Value) (c : Context) :
    Gives (m.call t args) c P := by
  cases m with
  | get =>
    exact gives_bind fun _ _ => gives_ofExcept_bind fun cells found =>
      gives_pure (H.array.2 (H.column found))
  | rowWhere => exact gives_bind fun _ _ => gives_bind fun _ _ => gives_pure (H.row _)

namespace ObjectRef

theorem current_of_hereditary (c : Context) (id : String) : P (current c id) := by
  unfold current
  split
  · exact H.ofJson _
  · exact H.null

theorem gives_adjust (method id name : String) (combine : Float → Float → Float)
    (args : List Value) (c : Context) : Gives (adjust method id name combine args) c P := by
  refine gives_bind fun arg c => gives_bind fun amount c => gives_get_bind ?_
  dsimp only
  split
  · exact gives_throw _
  · exact gives_bind fun _ _ => gives_pure (H.number _)

theorem gives_callOwner (objects : ∀ o, P (.object o)) (name : String) (args : List Value)
    (c : Context) : Gives (callOwner name args) c P := by
  refine gives_bind fun c c' => ?_
  dsimp only
  split_ifs
  · refine gives_bind fun arg c => ?_
    split
    · exact gives_throw _
    · exact gives_bind fun _ _ => gives_pure (objects _)
  · exact gives_bind fun _ _ => gives_pure (H.bool _)
  · exact gives_throw _

variable {args : List Value} (fit : ∀ v ∈ args, P v)
include fit

theorem gives_callHandle (id name method : String) (c : Context) :
    Gives (callHandle id name method args) c P := by
  unfold callHandle
  split_ifs
  · exact gives_ofExcept_bind fun value only => gives_bind fun _ _ =>
      gives_pure (fit value (mem_of_onlyArg only))
  · exact gives_adjust H method id name _ args c
  · exact gives_adjust H method id name _ args c
  · exact gives_bind fun _ c => gives_pure (current_of_hereditary H c id)
  · exact gives_throw _

theorem gives_call (objects : ∀ o, P (.object o)) (o : ObjectRef) (name : String) {c : Context}
    (lends : c.LendsOnly P) : Gives (o.call name args) c P := by
  cases o with
  | owner => exact gives_callOwner H objects name args c
  | handle _ id attrName => exact gives_callHandle H fit id attrName name c
  | custom place type =>
    refine gives_get_bind ?_
    split
    next object found =>
      exact gives_on fun v e given =>
        lends.objects object (List.mem_of_getElem? found) name args fit _ v e given
    next => exact gives_throw _

end ObjectRef

namespace Value

variable {args : List Value} (fit : ∀ v ∈ args, P v) {receiver : Value} (fits : P receiver)
  {c : Context} (lends : c.LendsOnly P)
include fits lends

theorem gives_property (name : String) {v : Value} (given : receiver.property c name = .ok v) :
    P v := by
  cases receiver with
  | map entries => exact Except.ok.inj given ▸ H.find?_getD (H.map.1 fits) name
  | chart t =>
    simp only [property] at given
    split_ifs at given
    exact Except.ok.inj given ▸ H.string _
  | object o =>
    cases o with
    | owner => nomatch given
    | handle _ id attrName =>
      simp only [property, ObjectRef.property] at given
      split_ifs at given
      · exact Except.ok.inj given ▸ ObjectRef.current_of_hereditary H c id
      · exact Except.ok.inj given ▸ H.string _
      · exact Except.ok.inj given ▸ H.string _
    | custom place type =>
      simp only [property, ObjectRef.property] at given
      split at given
      next object found =>
        exact lends.properties object (List.mem_of_getElem? found) name v given
      next => nomatch given
  | _ => nomatch given

include fit

theorem gives_callMethod (objects : ∀ o, P (.object o)) (name : String) :
    Gives (receiver.callMethod name args) c P := by
  unfold callMethod
  split
  next items =>
    split
    next m _ => exact fun v c' given => H.arrayMethod m (H.array.1 fits) given
    next => exact gives_throw _
  next t =>
    split
    next m _ => exact m.gives_call H t args c
    next => exact gives_throw _
  next r =>
    split
    next m _ => exact gives_ofExcept fun v given => H.rowMethod m given
    next => exact gives_throw _
  next o => exact o.gives_call H fit objects name lends
  next => exact gives_throw _

end Value

end Doors

end SheetScript
