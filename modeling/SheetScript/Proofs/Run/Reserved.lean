import SheetScript.Proofs.Run.Deeds
import SheetScript.Proofs.Run.IndexAssignment

/-!
# Bindings of names that are taken

A name means a built-in function, or else a global of the host, or else a variable. An assignment
refuses a name that is taken by one of the first two (`Target.store_variable_of_taken`). A loop, a
call and a declaration bind it all the same, and nobody sees the binding.

* `Deed.Makes`: a deed makes a variable hold a value, for what sees the scope.
  `Deed.exists_makes_of_declare`, `Deed.exists_makes_of_enter`: each name that a block declares and
  each parameter of a call is bound so.
* `Deed.Fair.makes_lookup?`: right after that deed, this is what a lookup of the variable gives.
* `Program.valueOf_bound`: as long as nothing binds the name again, it has the value that it was
  bound to, if it is not taken.
-/

namespace SheetScript

open Act

/-! ## Steps that bind -/

namespace Machine

/-- A state with so many scopes, all of them empty. -/
def blank (size : Nat) : Machine where
  world := default
  scopes := Array.replicate size []

theorem size_blank (size : Nat) : (blank size).scopes.size = size := Array.size_replicate

theorem binding?_blank (size place : Nat) (name : String) :
    (blank size).scopes.binding? place name = none := by
  change Entries.find? ((Array.replicate size []).getD place []) name = none
  rw [Array.getD_eq_getD_getElem?, Array.getElem?_replicate]
  split_ifs <;> rfl

theorem owner_blank (size : Nat) (chain : Chain) (name : String) :
    (blank size).scopes.owner chain name = chain.head?.getD 0 := by
  have unbound : chain.find? (fun place => ((blank size).scopes.binding? place name).isSome) =
      none := List.find?_eq_none.2 fun place _ => by
    rw [binding?_blank]
    exact Bool.false_ne_true
  rw [Scopes.owner, unbound, Option.getD_none]

end Machine

namespace Scopes

variable {scopes : Scopes} {entry place : Nat} {chain outer : Chain} {name : String} {value : Value}

/-- What a block declares is bound. -/
theorem isSome_binding?_declare_of_mem {functions : List Function} {f : Function}
    (inside : chain.head?.getD 0 < scopes.size) (mem : f ∈ functions) :
    ((scopes.declare entry chain functions).binding? (chain.head?.getD 0) f.name).isSome := by
  induction functions using List.reverseRecOn with
  | nil => exact absurd mem List.not_mem_nil
  | append_singleton functions g ih =>
    rw [declare_concat, binding?_define (size_declare.symm ▸ inside)]
    split_ifs with last
    · rfl
    · refine ih (((List.mem_append.1 mem).resolve_right fun mem => last ⟨rfl, ?_⟩))
      rw [List.mem_singleton.1 mem]

/-- After an assignment, a chain whose innermost scope exists sees the value assigned. -/
theorem lookup?_assign_cons (inside : place < scopes.size) :
    (scopes.assign (place :: outer) name value).lookup? (place :: outer) name = some value := by
  cases found : scopes.lookup? (place :: outer) name with
  | some old => exact lookup?_assign found value
  | none =>
    have unbound : (place :: outer).find? (fun place => (scopes.binding? place name).isSome) =
        none := by
      refine List.find?_eq_none.2 fun other mem => ?_
      rw [List.findSome?_eq_none_iff.1 found other mem]
      exact Bool.false_ne_true
    have owner : scopes.owner (place :: outer) name = place := by
      rw [Scopes.owner, unbound]
      rfl
    refine lookup?_of_head ?_
    rw [assign, owner, binding?_define inside, if_pos ⟨rfl, rfl⟩]

/-- What a chain sees depends on its scopes. -/
theorem lookup?_congr {scopes' : Scopes}
    (same : ∀ place ∈ chain, scopes'.binding? place name = scopes.binding? place name) :
    scopes'.lookup? chain name = scopes.lookup? chain name := by
  unfold lookup?
  induction chain with
  | nil => rfl
  | cons place rest ih =>
    obtain ⟨here, later⟩ := List.forall_mem_cons.1 same
    rw [List.findSome?_cons, List.findSome?_cons, here, ih later]

end Scopes

namespace OwnStep

/-- A step binds a name in the innermost scope of a chain, if no scope binds it yet. -/
def BindsFirst {α : Type} (step : OwnStep α) (place : Nat) (name : String) : Prop :=
  ((step.act.left (Machine.blank (place + 1))).scopes.binding? place name).isSome

theorem bindsFirst_assign (chain : Chain) (name : String) (value : Value) :
    (assign chain name value).BindsFirst (chain.head?.getD 0) name := by
  have inside : chain.head?.getD 0 < (Machine.blank (chain.head?.getD 0 + 1)).scopes.size :=
    Nat.lt_of_lt_of_eq (Nat.lt_add_one _) (Machine.size_blank _).symm
  change (Scopes.binding? (Scopes.assign _ chain name value) _ name).isSome
  rw [Scopes.assign, Machine.owner_blank, Scopes.binding?_define inside, if_pos ⟨rfl, rfl⟩]
  rfl

theorem bindsFirst_declare (chain : Chain) {functions : List Function} {f : Function}
    (mem : f ∈ functions) :
    (declare chain functions).BindsFirst (chain.head?.getD 0) f.name := by
  have inside : chain.head?.getD 0 < (Machine.blank (chain.head?.getD 0 + 1)).scopes.size :=
    Nat.lt_of_lt_of_eq (Nat.lt_add_one _) (Machine.size_blank _).symm
  change (((Machine.declare chain functions).left _).scopes.binding? _ f.name).isSome
  rw [Machine.scopes_declare]
  exact Scopes.isSome_binding?_declare_of_mem inside mem

theorem Scoped.place_eq {binds : String → Prop} {chain : Chain} {α : Type} {step : OwnStep α}
    {place : Nat} {name : String} (h : step.Scoped binds chain)
    (first : step.BindsFirst place name) : place = chain.head?.getD 0 := by
  unfold BindsFirst at first
  by_contra apart
  have unbound : (step.act.left (Machine.blank (place + 1))).scopes.binding? place name =
      none := by
    cases h with
    | still same =>
      rw [same]
      exact Machine.binding?_blank ..
    | @assign n v _ _ =>
      change (Scopes.assign _ chain n v).binding? place name = none
      rw [Scopes.assign, Machine.owner_blank, Scopes.binding?_define_of_ne fun h => apart h.1]
      exact Machine.binding?_blank ..
    | @declare functions _ =>
      change ((Machine.declare chain functions).left _).scopes.binding? place name = none
      rw [Machine.scopes_declare, Scopes.binding?_declare_of_ne fun here => absurd here apart]
      exact Machine.binding?_blank ..
  rw [unbound] at first
  exact absurd first Bool.false_ne_true

end OwnStep

namespace Deed

variable {binds : String → Prop} {α : Type} {step : OwnStep α} {place : Nat} {name : String}
  {m : Machine}

/-- In a run of a program, a step binds names in scopes that exist. -/
theorem Fair.lt_size (h : (Deed.own step m).Fair binds Program.topLevel)
    (inside : 0 < m.scopes.size) (first : step.BindsFirst place name) : place < m.scopes.size := by
  cases h with
  | own meets placed =>
    rw [meets.scopes.place_eq first]
    exact placed.elim (fun top => top ▸ inside) id

theorem Binds.exists_bindsFirst (h : (Deed.own step m).Binds place name) :
    ∃ other, step.BindsFirst other name := by
  cases h with
  | @assign chain v _ _ => exact ⟨_, OwnStep.bindsFirst_assign chain name v⟩
  | @declare chain functions _ f mem same _ =>
    exact ⟨_, same ▸ OwnStep.bindsFirst_declare chain mem⟩

/-- A step that never changes the scopes binds nothing. -/
theorem not_binds_of_still (still : ∀ m, (step.act.left m).scopes = m.scopes) :
    ¬(own step m).Binds place name := fun h => by
  obtain ⟨other, first⟩ := h.exists_bindsFirst
  rw [OwnStep.BindsFirst, still, Machine.binding?_blank] at first
  exact absurd first Bool.false_ne_true

/-! ## Deeds that bind -/

/-- A deed makes a variable hold a value, for what sees a scope and the scopes around it. -/
inductive Makes (place : Nat) (outer : Chain) (name : String) (value : Value) : Deed → Prop
  /-- A step of a loop binds the variable of the loop, or an assignment assigns. -/
  | assign {m : Machine} :
      Makes place outer name value (.own (.assign (place :: outer) name value) m)
  /-- A block declares functions, the last one of the name is this one. -/
  | declare {front back : List Function} {f : Function} {m : Machine} (same : f.name = name)
      (last : ∀ g ∈ back, g.name ≠ name)
      (closure : value = .function ⟨m.entries, f, place :: outer⟩) :
      Makes place outer name value (.own (.declare (place :: outer) (front ++ f :: back)) m)
  /-- A call binds parameters, the last one of the name to this value. -/
  | enter {f : Closure} {args : List Value} {front back : List (String × Value)} {m : Machine}
      (pairs : f.decl.params.zip args = front ++ (name, value) :: back)
      (last : ∀ pair ∈ back, pair.1 ≠ name) (here : place = m.scopes.size)
      (around : outer = f.scopes) : Makes place outer name value (.enter f args m)

/-- Every function that a block declares has its name bound, to the last function of that name. -/
theorem exists_makes_of_declare {functions : List Function} {f : Function}
    (mem : f ∈ functions) (place : Nat) (outer : Chain) (m : Machine) :
    ∃ g ∈ functions, g.name = f.name ∧
      (Deed.own (.declare (place :: outer) functions) m).Makes place outer f.name
        (.function ⟨m.entries, g, place :: outer⟩) := by
  have named : (functions.reverse.find? (·.name == f.name)).isSome :=
    List.find?_isSome.2 ⟨f, List.mem_reverse.2 mem, beq_self_eq_true f.name⟩
  obtain ⟨g, found⟩ := Option.isSome_iff_exists.1 named
  obtain ⟨same, front, back, rfl, last⟩ := List.split_of_find?_reverse found
  have behind : ∀ h ∈ back, h.name ≠ f.name := fun h mem eq => last h mem (beq_iff_eq.2 eq)
  exact ⟨g, List.mem_append_right _ List.mem_cons_self, eq_of_beq same,
    .declare (eq_of_beq same) behind rfl⟩

/-- Every parameter of a function that is entered is bound, to an argument. -/
theorem exists_makes_of_enter {f : Closure} {args : List Value}
    (mem : name ∈ (f.decl.params.zip args).map Prod.fst) (m : Machine) :
    ∃ value ∈ args, (Deed.enter f args m).Makes m.scopes.size f.scopes name value := by
  obtain ⟨pair, inside, rfl⟩ := List.mem_map.1 mem
  have named : ((f.decl.params.zip args).reverse.find? (·.1 == pair.1)).isSome :=
    List.find?_isSome.2 ⟨pair, List.mem_reverse.2 inside, beq_self_eq_true pair.1⟩
  obtain ⟨⟨n, value⟩, found⟩ := Option.isSome_iff_exists.1 named
  obtain ⟨same, front, back, split, last⟩ := List.split_of_find?_reverse found
  obtain rfl : n = pair.1 := eq_of_beq same
  have given : (pair.1, value) ∈ f.decl.params.zip args :=
    split ▸ List.mem_append_right _ List.mem_cons_self
  have behind : ∀ other ∈ back, other.1 ≠ pair.1 := fun other mem eq =>
    last other mem (beq_iff_eq.2 eq)
  exact ⟨value, (List.of_mem_zip given).2, .enter split behind rfl rfl⟩

/-- After a deed that binds a variable, its scope gives the value. -/
theorem Fair.makes_lookup? {outer : Chain} {value : Value} {d : Deed}
    (h : d.Fair binds Program.topLevel) (inside : 0 < d.before.scopes.size)
    (makes : d.Makes place outer name value) :
    d.after.scopes.lookup? (place :: outer) name = some value := by
  cases makes with
  | @assign m =>
    exact Scopes.lookup?_assign_cons
      (h.lt_size inside (OwnStep.bindsFirst_assign (place :: outer) name value))
  | @declare front back f m same last closure =>
    subst same closure
    have exists_scope : place < m.scopes.size := h.lt_size inside
      (OwnStep.bindsFirst_declare (place :: outer) (List.mem_append_right _ List.mem_cons_self))
    change (Act.left (Machine.declare _ _) m).scopes.lookup? (place :: outer) f.name = _
    rw [m.scopes_declare]
    exact Scopes.lookup?_of_head (Scopes.binding?_declare exists_scope last)
  | @enter f args front back m pairs last here around =>
    subst here
    refine Scopes.lookup?_of_head ?_
    change Scopes.binding? (m.scopes.push _) m.scopes.size name = some value
    rw [Scopes.binding?_push_self, pairs]
    exact Entries.find?_ofList_last last

end Deed

/-! ## What a name means -/

/-- A variable is seen if its name is not taken. -/
theorem Expr.valueOf_of_lookup? {m : Machine} {chain : Chain} {name : String} {value : Value}
    (found : m.scopes.lookup? chain name = some value) :
    Expr.valueOf chain name m = .ok ((m.world.taken? name).getD value) m := by
  rw [Expr.valueOf_eq, Machine.read, World.taken?, found]
  cases Builtin.ofName? name with
  | some b => rfl
  | none =>
    rw [Option.map_none, Option.none_or]
    cases Entries.find? m.world.context.globals name <;> rfl

theorem World.SameLent.taken?_eq {w w' : World} (h : w.SameLent w') (name : String) :
    w'.taken? name = w.taken? name := by
  rw [World.taken?, World.taken?, h.globals]

/-- An assignment refuses a name that is taken. -/
theorem Target.store_variable_of_taken {rules : Rules} {chain : Chain} {m : Machine} {name : String}
    (taken : (m.world.taken? name).isSome) (op : Option Operator) (value : Value) :
    store rules chain op value (.variable name) m = .error (.type (.reservedName name)) m := by
  have refused : checkFree name m = .error (.type (.reservedName name)) m := by
    rw [checkFree_eq, if_pos taken]
  rw [store, bind_error refused]

namespace Program

/-- **What a name means after it has been bound**, by a loop, by a call or by a declaration. As long
as nothing binds it again where it is looked up, it means what it was bound to, unless it is the
name of a built-in function or of a global of the host: then it means that. So the binding counts if
and only if the name is not taken, or means this value already. -/
theorem valueOf_bound {limits : Limits} {p : Program} {world : World} {log : List Deed}
    {last : Machine} (logs : p.Logs limits world log last) {before between after : List Deed}
    {binding : Deed} {place : Nat} {front outer : Chain} {name : String} {value : Value}
    {m : Machine}
    (split : log = before ++ binding ::
      (between ++ .own (.valueOf (front ++ place :: outer) name) m :: after))
    (makes : binding.Makes place outer name value)
    (unhidden : ∀ other ∈ front, binding.after.scopes.binding? other name = none)
    (untouched : ∀ d ∈ between, ∀ other ∈ front ++ place :: outer, ¬d.Binds other name) :
    Expr.valueOf (front ++ place :: outer) name m =
        .ok ((world.taken? name).getD value) m ∧
      (Expr.valueOf (front ++ place :: outer) name m = .ok value m ↔
        ∀ taken ∈ world.taken? name, taken = value) := by
  subst split
  have fair := logs.fair
  have toLookup : Deed.Trail binding.after between m := logs.trail.split.2.split.1
  have bindingMem : binding ∈ before ++ binding ::
      (between ++ .own (.valueOf (front ++ place :: outer) name) m :: after) :=
    List.mem_append_right _ List.mem_cons_self
  have fairBetween : ∀ d ∈ between, d.Fair (fun _ => True) topLevel := fun d mem =>
    fair d (List.mem_append_right _ (List.mem_cons_of_mem _ (List.mem_append_left _ mem)))
  have inside : 0 < binding.before.scopes.size :=
    Nat.lt_of_lt_of_le Nat.one_pos (logs.trail.size_le_of_mem fair bindingMem)
  have bound := (fair binding bindingMem).makes_lookup? inside makes
  have seen : binding.after.scopes.lookup? (front ++ place :: outer) name = some value := by
    unfold Scopes.lookup? at bound ⊢
    rw [List.findSome?_append, List.findSome?_eq_none_iff.2 unhidden, bound]
    rfl
  have stays : m.scopes.lookup? (front ++ place :: outer) name = some value :=
    (Scopes.lookup?_congr fun other mem =>
      toLookup.binding?_eq fairBetween fun d mem' => untouched d mem' other mem).trans seen
  have lent : world.SameLent m.world := logs.trail.sameLent_of_mem fair
    (List.mem_append_right _ (List.mem_cons_of_mem _
      (List.mem_append_right _ List.mem_cons_self)))
  have means := Expr.valueOf_of_lookup? stays
  rw [lent.taken?_eq] at means
  refine ⟨means, ?_⟩
  rw [means]
  cases world.taken? name <;> simp

end Program

/-- `for item in ["a"]: item` -/
def looping : Program where
  statements := [.loop 1 "item" (.array [.string "a"]) [.expression 2 (.variable "item")]]

theorem looping_valueOf_bound :
    ∃ log last before between after start m,
      looping.Logs {} ⟨{}, {}⟩ log last ∧
      log = before ++ .own (.assign [0] "item" (.string "a")) start ::
        (between ++ .own (.valueOf [0] "item") m :: after) ∧
      Expr.valueOf [0] "item" m = .ok (.string "a") m := by
  let start : Machine := { world := ⟨{}, {}⟩, line := 1, iterations := 1 }
  let bound : Machine := { start with scopes := #[[("item", .string "a")]] }
  let m : Machine := { bound with line := 2 }
  have split : looping.log {} ⟨{}, {}⟩ = (looping.log {} ⟨{}, {}⟩).take 6 ++
      .own (.assign [0] "item" (.string "a")) start ::
        ([.own (.declare [0] []) bound] ++ .own (.valueOf ([] ++ 0 :: []) "item") m ::
          (looping.log {} ⟨{}, {}⟩).drop 9) := rfl
  have makes : (Deed.own (.assign [0] "item" (.string "a")) start).Makes 0 [] "item"
      (.string "a") := .assign
  have untouched : ∀ d ∈ [Deed.own (.declare [0] []) bound], ∀ other ∈ ([] : Chain) ++ 0 :: [],
      ¬d.Binds other "item" := fun d mem other _ => by
    rw [List.mem_singleton.1 mem]
    exact Deed.not_binds_of_still fun _ => rfl
  have means := Program.valueOf_bound .run split makes
    (fun _ mem => absurd mem List.not_mem_nil) untouched
  exact ⟨_, _, _, _, _, start, m, .run, split, means.2.2 (by rintro taken ⟨⟩)⟩

/-- `for floor in [7]: floor` -/
def reserving : Program where
  statements := [.loop 1 "floor" (.array [.number 7]) [.expression 2 (.variable "floor")]]

/-- `floor = 7` -/
def reassigning : Program where
  statements := [.assign 1 (.variable "floor") none (.number 7)]

/-- **A loop binds the name of a built-in function in vain.** Nothing binds `floor` again, yet it
means the built-in function, and the run succeeds. An assignment to that name fails. -/
theorem exists_binding_ignored :
    (∃ log last before between after start m,
      reserving.Logs {} ⟨{}, {}⟩ log last ∧
      log = before ++ .own (.assign [0] "floor" (.number 7)) start ::
        (between ++ .own (.valueOf [0] "floor") m :: after) ∧
      (∀ d ∈ between, ∀ place, ¬d.Binds place "floor") ∧
      Expr.valueOf [0] "floor" m = .ok (.builtin .floor) m) ∧
    (reserving.run {} ⟨{}, {}⟩).1.failure = none ∧
    (reassigning.run {} ⟨{}, {}⟩).1.failure =
      some ⟨.type (.reservedName "floor"), some 1, ["at <script> (line 1)"]⟩ := by
  let start : Machine := { world := ⟨{}, {}⟩, line := 1, iterations := 1 }
  let bound : Machine := { start with scopes := #[[("floor", .number 7)]] }
  refine ⟨⟨reserving.log {} ⟨{}, {}⟩, _, (reserving.log {} ⟨{}, {}⟩).take 6,
    [.own (.declare [0] []) bound], (reserving.log {} ⟨{}, {}⟩).drop 9, start,
    { bound with line := 2 }, .run, rfl, fun d mem place => ?_, rfl⟩, rfl, by decide⟩
  rw [List.mem_singleton.1 mem]
  exact Deed.not_binds_of_still fun _ => rfl

end SheetScript
