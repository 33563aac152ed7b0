import SheetScript.Proofs.Run.Variables
import SheetScript.Proofs.Value.Places

/-!
# Assigning to a place inside a variable

`x[i]...[k] = v` changes the one place of `x` that the indices lead to, or nothing. The update goes
from the inside out: each container on the way is read again and written back with the changed
container in it.

* `Act.Ends` speaks of a step that gives something or fails.
* `Machine.Untouched`: evaluating the indices touches no variable and leads to the same place each
  time. `Machine.untouched_of_steady` finds that by the looks of the indices.
* `Target.ends_storeAt` is the update, by induction on the path.
* `Stmt.exec_assign_index` is the statement.
-/

namespace SheetScript

open Relation

/-! ## Steps that give something or fail -/

namespace Act

variable {σ α β : Type} {s : σ} {gives : α → σ → Prop} {fails : σ → Prop}

/-- From a state a step gives a value and a state that go together, or it fails in a state of some
kind. -/
inductive Ends (act : Act σ α) (s : σ) (gives : α → σ → Prop) (fails : σ → Prop) : Prop
  | ok {a : α} {s' : σ} (run : act s = .ok a s') (h : gives a s') : Ends act s gives fails
  | error {e : ScriptError} {s' : σ} (run : act s = .error e s') (h : fails s') :
      Ends act s gives fails

theorem ends_ofExcept_bind {result : Except ScriptError α} {f : α → Act σ β}
    {gives : β → σ → Prop} (ok : ∀ a, result = .ok a → Ends (f a) s gives fails)
    (error : fails s) : Ends (MonadExcept.ofExcept result >>= f) s gives fails := by
  cases result with
  | ok a =>
    cases ok a rfl with
    | ok run h => exact .ok run h
    | error run h => exact .error run h
  | error e => exact .error rfl error

theorem ends_bind_of_ok {act : Act σ α} {f : α → Act σ β} {s' : σ} {a : α}
    {gives : β → σ → Prop} (run : act s = .ok a s') (h : Ends (f a) s' gives fails) :
    Ends (act >>= f) s gives fails := by
  cases h with
  | ok run' h => exact .ok ((bind_ok run).trans run') h
  | error run' h => exact .error ((bind_ok run).trans run') h

theorem Ends.bind {act : Act σ α} {f : α → Act σ β} {first : α → σ → Prop}
    {gives : β → σ → Prop} (h : Ends act s first fails)
    (next : ∀ a s', first a s' → Ends (f a) s' gives fails) : Ends (act >>= f) s gives fails := by
  cases h with
  | error run h => exact .error (bind_error run) h
  | ok run h => exact ends_bind_of_ok run (next _ _ h)

theorem Ends.mono {act : Act σ α} {gives' : α → σ → Prop} {fails' : σ → Prop}
    (h : Ends act s gives fails) (ok : ∀ a s', gives a s' → gives' a s')
    (error : ∀ s', fails s' → fails' s') : Ends act s gives' fails' := by
  cases h with
  | ok run h => exact .ok run (ok _ _ h)
  | error run h => exact .error run (error _ h)

end Act

open Act

/-! ## The value of a name -/

/-- What a name is read as: a built-in function, or else a global of the host, or else a
variable. -/
def Machine.read (m : Machine) (chain : Chain) (name : String) : Except ScriptError Value :=
  match Builtin.ofName? name with
  | some b => .ok (.builtin b)
  | none =>
    match (Entries.find? m.world.context.globals name).or (m.scopes.lookup? chain name) with
    | some value => .ok value
    | none => .error (.undefinedVariable name)

theorem Expr.valueOf_eq (chain : Chain) (name : String) (m : Machine) :
    Expr.valueOf chain name m =
      match m.read chain name with
      | .ok value => .ok value m
      | .error e => .error e m := by
  unfold valueOf Machine.read
  cases Builtin.ofName? name with
  | some b => rfl
  | none =>
    change (match Entries.find? m.world.context.globals name with
      | some value => pure value
      | none => _ : Run Value) m = _
    cases Entries.find? m.world.context.globals name with
    | some value => rfl
    | none =>
      change (match m.scopes.lookup? chain name with
        | some value => pure value
        | none => throw _ : Run Value) m = _
      cases m.scopes.lookup? chain name with
      | some value => rfl
      | none => rfl

theorem Machine.SameVariables.read_eq {m m' : Machine} (h : m.SameVariables m') {chain : Chain}
    (sees : m.Sees chain) (name : String) : m'.read chain name = m.read chain name := by
  rw [read, read, h.globals, h.lookup?_eq sees]

/-- What a name means that is taken: a built-in function, or else a global of the host. -/
def World.taken? (w : World) (name : String) : Option Value :=
  ((Builtin.ofName? name).map .builtin).or (Entries.find? w.context.globals name)

/-- A name is neither that of a built-in function nor that of a global of the host. -/
def Machine.Free (m : Machine) (name : String) : Prop :=
  Builtin.ofName? name = none ∧ Entries.find? m.world.context.globals name = none

theorem Machine.free_iff {m : Machine} {name : String} :
    m.Free name ↔ m.world.taken? name = none := by
  rw [Free, World.taken?, Option.or_eq_none_iff, Option.map_eq_none_iff]

theorem Target.checkFree_eq (name : String) (m : Machine) :
    checkFree name m =
      if (m.world.taken? name).isSome then .error (.type (.reservedName name)) m else .ok () m := by
  have unfolded : checkFree name m =
      (if (Builtin.ofName? name).isSome || m.world.context.hasGlobal name then
        throw (.type (.reservedName name)) else pure () : Run Unit) m := rfl
  rw [unfolded, World.taken?, Option.isSome_or, Option.isSome_map, Context.hasGlobal,
    Entries.contains]
  split_ifs <;> rfl

theorem Target.ends_checkFree (name : String) (m : Machine) :
    Ends (checkFree name) m (fun _ m' => m' = m ∧ m.Free name) fun m' => m' = m := by
  cases taken : m.world.taken? name with
  | some value =>
    have refused : checkFree name m = .error (.type (.reservedName name)) m := by
      rw [checkFree_eq, taken]
      rfl
    exact .error refused rfl
  | none =>
    have passes : checkFree name m = .ok () m := by
      rw [checkFree_eq, taken]
      rfl
    exact .ok passes ⟨rfl, Machine.free_iff.2 taken⟩

theorem Machine.ends_assign {m : Machine} {chain : Chain} {name : String} {v result : Value}
    {gives : Value → Machine → Prop} {fails : Machine → Prop}
    (h : gives result { m with scopes := m.scopes.assign chain name v }) :
    Ends (do assign chain name v; return result) m gives fails := .ok rfl h

/-! ## Indices without side effects -/

/-- An index expression and its value. -/
structure IndexValue where
  expr : Expr
  value : Value

section Path

variable (rules : Rules) (chain : Chain)

/-- Evaluating index expressions, again and again and in any order, leads from one state to
another. -/
def Machine.Evaluating (path : List IndexValue) : Machine → Machine → Prop :=
  ReflTransGen fun m m' => ∃ index ∈ path, m' = (index.expr.eval rules chain).left m

/-- The index expressions of a path have no side effects: evaluating them leaves the variables
alone, and leads to the places of their values each time. An index that draws has to do so with
every further draw. -/
structure Machine.Untouched (m : Machine) (path : List IndexValue) : Prop where
  same : ∀ m', Machine.Evaluating rules chain path m m' → m.SameVariables m'
  place : ∀ m', Machine.Evaluating rules chain path m m' → ∀ index ∈ path,
    ∀ position m'', index.expr.eval rules chain m' = .ok position m'' →
      position.SamePlace index.value

/-- Indices that change nothing at all have no side effects. -/
theorem Machine.untouched_of_steady {m : Machine} {path : List IndexValue}
    (steady : ∀ index ∈ path, index.expr.Steady)
    (value : ∀ index ∈ path, ∀ position m', index.expr.eval rules chain m = .ok position m' →
      position = index.value) : m.Untouched rules chain path := by
  have same : ∀ m', Machine.Evaluating rules chain path m m' → m' = m := by
    intro m' path
    induction path with
    | refl => rfl
    | tail _ step ih =>
      obtain ⟨index, mem, rfl⟩ := step
      rw [Expr.left_eval rules chain (steady index mem)]
      exact ih
  constructor
  · intro m' path
    rw [same m' path]
    exact .refl m
  · intro m' path index mem position m'' evaluates
    rw [same m' path] at evaluates
    rw [value index mem position m'' evaluates]
    exact .refl index.value

end Path

/-- A place inside a variable, as an expression. -/
def Expr.indexed (name : String) (indices : List Expr) : Expr :=
  indices.foldl .index (.variable name)

theorem Expr.indexed_concat (name : String) (indices : List Expr) (e : Expr) :
    indexed name (indices ++ [e]) = .index (indexed name indices) e := by
  rw [indexed, List.foldl_append]
  rfl

section Update

variable {rules : Rules} {chain : Chain} {whole path : List IndexValue} {start m : Machine}
  {name : String} (untouched : start.Untouched rules chain whole)
  (sees : start.Sees chain)
include untouched

theorem Expr.ends_eval_index {index : IndexValue} (mem : index ∈ whole)
    (reached : Machine.Evaluating rules chain whole start m) :
    Ends (index.expr.eval rules chain) m
      (fun position m' => Machine.Evaluating rules chain whole start m' ∧
        position.SamePlace index.value)
      (Machine.Evaluating rules chain whole start) := by
  have next : Machine.Evaluating rules chain whole start ((index.expr.eval rules chain).left m) :=
    reached.tail ⟨index, mem, rfl⟩
  unfold left at next
  cases run : index.expr.eval rules chain m with
  | ok position m' =>
    rw [run] at next
    exact .ok run ⟨next, untouched.place m reached index mem position m' run⟩
  | error e m' =>
    rw [run] at next
    exact .error run next

include sees

/-- The variable is read as before the indices were evaluated. -/
theorem Expr.ends_valueOf (reached : Machine.Evaluating rules chain whole start m) :
    Ends (valueOf chain name) m
      (fun v m' => Machine.Evaluating rules chain whole start m' ∧ start.read chain name = .ok v)
      (Machine.Evaluating rules chain whole start) := by
  have value := valueOf_eq chain name m
  rw [(untouched.same m reached).read_eq sees] at value
  cases read : start.read chain name with
  | ok v =>
    rw [read] at value
    exact .ok value ⟨reached, rfl⟩
  | error e =>
    rw [read] at value
    exact .error value reached

/-- To evaluate a path reads a place of the variable. -/
theorem Expr.ends_eval_indexed (within : path ⊆ whole)
    (reached : Machine.Evaluating rules chain whole start m) :
    Ends ((indexed name (path.map IndexValue.expr)).eval rules chain) m
      (fun v m' => Machine.Evaluating rules chain whole start m' ∧
        ∃ old, start.read chain name = .ok old ∧ old.getAlong (path.map IndexValue.value) = .ok v)
      (Machine.Evaluating rules chain whole start) := by
  induction path using List.reverseRecOn generalizing m with
  | nil =>
    refine (ends_valueOf untouched sees reached).mono (fun v m' h => ?_) fun _ h => h
    exact ⟨h.1, v, h.2, rfl⟩
  | append_singleton path index ih =>
    obtain ⟨front, last⟩ := List.append_subset.1 within
    rw [List.map_append, List.map_append, List.map_singleton, List.map_singleton, indexed_concat,
      eval]
    refine (ih front reached).bind fun container m₁ ⟨reached, old, reads, here⟩ => ?_
    refine (ends_eval_index untouched (last List.mem_cons_self) reached).bind
      fun position m₂ ⟨reached, same⟩ => ?_
    change Ends (MonadExcept.ofExcept (container.get position)) m₂ _ _
    rw [same.get]
    cases got : container.get index.value with
    | error e => exact .error rfl reached
    | ok v =>
      refine .ok rfl ⟨reached, old, reads, ?_⟩
      rw [Value.getAlong_concat here, got]

/-- **The update.** A place further in is stored first, then its container at the place before. -/
theorem Target.ends_storeAt (within : path ⊆ whole) {op : Option Operator}
    {position place value : Value} (same : position.SamePlace place)
    (reached : Machine.Evaluating rules chain whole start m)
    (countable : ∀ old, start.read chain name = .ok old →
      old.Countable (path.map IndexValue.value ++ [place])) :
    Ends (storeAt rules chain op position value (Expr.indexed name (path.map IndexValue.expr))) m
      (fun result m' => ∃ m₁, Machine.Evaluating rules chain whole start m₁ ∧ m₁.Free name ∧
        ∃ old new, start.read chain name = .ok old ∧
          combine op (old.getAlong (path.map IndexValue.value ++ [place])) value = .ok result ∧
          Value.Replaced result (path.map IndexValue.value ++ [place]) old new ∧
          m' = { m₁ with scopes := m₁.scopes.assign chain name new })
      (Machine.Evaluating rules chain whole start) := by
  induction path using List.reverseRecOn generalizing op position place value m with
  | nil =>
    refine (Expr.ends_valueOf untouched sees reached).bind fun old m₁ ⟨reached, read⟩ => ?_
    refine ends_ofExcept_bind (fun result combined => ?_) reached
    refine ends_ofExcept_bind (fun new put => ?_) reached
    rw [same.get] at combined
    rw [same.put] at put
    refine ((ends_checkFree name m₁).mono (fun _ _ h => h) fun m' eq => eq ▸ reached).bind ?_
    rintro ⟨⟩ m₂ ⟨rfl, free⟩
    refine Machine.ends_assign ⟨m₂, reached, free, old, new, read, ?_, ?_, rfl⟩
    · rwa [List.map_nil, List.nil_append, Value.getAlong_singleton]
    · exact Value.replaced_of_put ((countable old read).last (rfl : old.getAlong [] = .ok old)) put
  | append_singleton path index ih =>
    obtain ⟨front, last⟩ := List.append_subset.1 within
    -- the container with the place has a place of its own, one index further out
    have evaluates : Ends ((Expr.indexed name ((path ++ [index]).map IndexValue.expr)).eval rules
        chain) m _ _ := Expr.ends_eval_indexed untouched sees within reached
    rw [List.map_append, List.map_append, List.map_singleton, List.map_singleton,
      Expr.indexed_concat] at evaluates
    rw [List.map_append, List.map_singleton] at countable
    rw [List.map_append, List.map_append, List.map_singleton, List.map_singleton,
      Expr.indexed_concat, storeAt]
    refine evaluates.bind fun container m₁ ⟨reached, old, read, here⟩ => ?_
    refine ends_ofExcept_bind (fun result combined => ?_) reached
    refine ends_ofExcept_bind (fun changed put => ?_) reached
    rw [same.get] at combined
    rw [same.put] at put
    refine (Expr.ends_eval_index untouched (last List.mem_cons_self) reached).bind
      fun outer m₂ ⟨reached, outerSame⟩ => ?_
    -- and there it is written back, with no operator
    have stored : Ends (storeAt rules chain none outer changed
        (Expr.indexed name (path.map IndexValue.expr))) m₂ _ _ :=
      ih front outerSame reached fun old read => (countable old read).outer
    refine stored.bind fun _ m₃ ⟨m₄, reached, free, old', new, read', combined', replaced, eq⟩ => ?_
    obtain rfl : old' = old := Except.ok.inj (read'.symm.trans read)
    obtain rfl := Except.ok.inj combined'
    refine .ok rfl ⟨m₄, reached, free, old', new, read, ?_, ?_, eq⟩
    · rwa [Value.getAlong_concat here]
    · exact replaced.append here (Value.replaced_of_put ((countable old' read).last here) put)

end Update

/-! ## The statement -/

/-- From one state to another, one place of the variable that a name means has come to hold `v`, and
nothing else has changed: the value of the variable was `old` and is `new`. -/
structure Machine.PlaceReplaced (chain : Chain) (name : String) (places : List Value) (v : Value)
    (m m' : Machine) (old new : Value) : Prop where
  before : Expr.valueOf chain name m = .ok old m
  after : Expr.valueOf chain name m' = .ok new m'
  /-- The value is the old one with only the place replaced. -/
  replaced : Value.Replaced v places old new
  /-- What is read at the place is what was put there. -/
  reads : new.getAlong places = .ok v
  globals : m'.world.context.globals = m.world.context.globals
  size_le : m.scopes.size ≤ m'.scopes.size
  /-- No other variable changes. -/
  others : ∀ place < m.scopes.size, ∀ n : String,
    ¬(place = m.scopes.owner chain name ∧ n = name) →
      m'.scopes.binding? place n = m.scopes.binding? place n

theorem Machine.SameVariables.noteFailure {m m' : Machine} (h : m.SameVariables m') (line : Nat) :
    m.SameVariables (m'.noteFailure line) := by
  unfold Machine.noteFailure
  split
  · exact h
  · exact ⟨h.globals, h.size_le, h.binding?⟩

theorem Machine.ends_atLine {α : Type} {act : Run α} {m : Machine} {line : Nat}
    {gives : α → Machine → Prop} {fails : Machine → Prop}
    (h : Ends act { m with line := line } gives fun m' => fails (m'.noteFailure line)) :
    Ends (atLine line act) m gives fails := by
  cases h with
  | ok run h =>
    refine .ok ?_ h
    rw [atLine, run]
  | @error e _ run h =>
    refine .error (e := e) ?_ h
    rw [atLine, run]

/-- To assign a name that is a variable puts its value in place of the one that it had. -/
theorem Machine.SameVariables.placeReplaced {m m₁ : Machine} {chain : Chain} {name : String}
    {places : List Value} {v old new : Value} (h : m.SameVariables m₁) (sees : m.Sees chain)
    (free : m₁.Free name) (read : m.read chain name = .ok old)
    (replaced : Value.Replaced v places old new) (result : Value) :
    Machine.PlaceReplaced chain name places v m
      { m₁ with scopes := m₁.scopes.assign chain name new, lastValue := result } old new := by
  obtain ⟨noBuiltin, noGlobal⟩ := free
  have noGlobal' : Entries.find? m.world.context.globals name = none := by
    rw [← noGlobal, h.globals]
  have found : m.scopes.lookup? chain name = some old := by
    rw [Machine.read, noBuiltin, noGlobal', Option.none_or] at read
    cases found : m.scopes.lookup? chain name with
    | none =>
      rw [found] at read
      nomatch read
    | some value =>
      rw [found] at read
      exact congrArg some (Except.ok.inj read)
  have found₁ : m₁.scopes.lookup? chain name = some old := (h.lookup?_eq sees name).trans found
  refine ⟨?_, ?_, replaced, replaced.getAlong, h.globals, ?_, fun place inside n other => ?_⟩
  · rw [Expr.valueOf_eq, read]
  · rw [Expr.valueOf_eq, Machine.read, noBuiltin]
    dsimp only
    rw [noGlobal, Option.none_or, Scopes.lookup?_assign found₁]
  · exact h.size_le.trans_eq Array.size_modify.symm
  · rw [Scopes.binding?_assign found₁, h.owner_eq sees, if_neg other]
    exact h.binding? place inside n

/-- **Assigning to a place inside a variable changes that place or nothing.** The right-hand side
has the value `value`, and the indices, which have no side effects, have the values that come with
them. If the statement succeeds, the result is `value`, or the old element combined with it, and the
place of the variable holds the result; the variable and all others are otherwise as before. If it
fails, all variables are as before.

No array on the way has `2 ^ 53` items or more: no memory holds one. -/
theorem Stmt.exec_assign_index (rules : Rules) (chain : Chain) (line : Nat) (op : Option Operator)
    (rhs : Expr) (name : String) (outer : List IndexValue) (last : IndexValue) (value : Value)
    (before m : Machine)
    (rhs_value : rhs.eval rules chain { before with line := line } = .ok value m)
    (sees : m.Sees chain) (untouched : m.Untouched rules chain (outer ++ [last]))
    (countable : ∀ old, Expr.valueOf chain name m = .ok old m →
      old.Countable (outer.map IndexValue.value ++ [last.value])) :
    Act.Ends
      (exec rules chain (.assign line
        (.index (Expr.indexed name (outer.map IndexValue.expr)) last.expr) op rhs))
      before
      (fun flow m' => flow = .next ∧ ∃ old new,
        Target.combine op (old.getAlong (outer.map IndexValue.value ++ [last.value])) value =
          .ok m'.lastValue ∧
        Machine.PlaceReplaced chain name (outer.map IndexValue.value ++ [last.value])
          m'.lastValue m m' old new)
      (fun m' => m.SameVariables m') := by
  have countable' : ∀ old, m.read chain name = .ok old →
      old.Countable (outer.map IndexValue.value ++ [last.value]) := fun old read =>
    countable old (by rw [Expr.valueOf_eq, read])
  have fails : ∀ m', Machine.Evaluating rules chain (outer ++ [last]) m m' →
      m.SameVariables (m'.noteFailure line) := fun m' reached =>
    (untouched.same m' reached).noteFailure line
  have mem : last ∈ outer ++ [last] := List.mem_append_right _ List.mem_cons_self
  rw [exec]
  have starts : Ends (rhs.eval rules chain) { before with line := line }
      (fun v m₁ => v = value ∧ m₁ = m) fun m' => m.SameVariables (m'.noteFailure line) :=
    .ok rhs_value ⟨rfl, rfl⟩
  refine Machine.ends_atLine (starts.bind ?_)
  rintro _ _ ⟨rfl, rfl⟩
  rw [Target.store]
  refine Ends.bind (((Expr.ends_eval_index untouched mem .refl).bind fun position m₁ h =>
    Target.ends_storeAt untouched sees (List.subset_append_left _ _) h.2 h.1 countable').mono
      (fun _ _ h => h) fails) ?_
  rintro result _ ⟨m₁, reached, free, old, new, read, combined, replaced, rfl⟩
  exact .ok rfl ⟨rfl, old, new, combined,
    (untouched.same m₁ reached).placeReplaced sees free read replaced result⟩

/-- An array with a map with an array, in a variable, and an index. -/
def nested : Machine where
  world := ⟨{}, {}⟩
  scopes := #[[("i", .number 1),
    ("x", .array [.map [("k", .array [.string "a", .string "b"])]])]]

/-- `x[0]["k"][i] += "!"` -/
def emphasis : Stmt :=
  .assign 1 (.index (.index (.index (.variable "x") (.number 0)) (.string "k")) (.variable "i"))
    (some .add) (.string "!")

theorem nested_exec_assign_index :
    ∃ m' old new, emphasis.exec (Rules.ofLimits {}) [0] nested = .ok .next m' ∧
      m'.lastValue.display = "b!" ∧
      Machine.PlaceReplaced [0] "x" [.number 0, .string "k", .number 1] m'.lastValue
        { nested with line := 1 } m' old new := by
  let start : Machine := { nested with line := 1 }
  let outer : List IndexValue := [⟨.number 0, .number 0⟩, ⟨.string "k", .string "k"⟩]
  let last : IndexValue := ⟨.variable "i", .number 1⟩
  have steady : ∀ index ∈ outer ++ [last], index.expr.Steady := by
    simp [outer, last, Expr.Steady]
  have value : ∀ index ∈ outer ++ [last],
      index.expr.eval (Rules.ofLimits {}) [0] start = .ok index.value start := by
    simp only [outer, last, List.cons_append, List.nil_append, List.forall_mem_cons]
    exact ⟨rfl, rfl, rfl, fun _ mem => absurd mem List.not_mem_nil⟩
  have untouched := Machine.untouched_of_steady (Rules.ofLimits {}) [0] steady
    fun index mem position m' eq => by
      rw [value index mem] at eq
      exact (EStateM.Result.ok.inj eq).1.symm
  have countable : ∀ old, Expr.valueOf [0] "x" start = .ok old start →
      old.Countable (outer.map IndexValue.value ++ [last.value]) := by
    intro old read
    have here : Expr.valueOf [0] "x" start =
        .ok (.array [.map [("k", .array [.string "a", .string "b"])]]) start := rfl
    obtain rfl := (EStateM.Result.ok.inj (here.symm.trans read)).1
    refine .cons ?_ (Value.get_array _ (i := 0) ⟨0, rfl, by decide +kernel⟩ (by decide)) ?_
    · rintro items ⟨⟩
      decide
    have entry : (Value.map [("k", .array [.string "a", .string "b"])]).get (.string "k") =
        .ok (.array [.string "a", .string "b"]) := rfl
    refine .cons (by rintro items ⟨⟩) entry ?_
    refine ⟨?_, fun _ _ => trivial⟩
    rintro items ⟨⟩
    decide
  have ends := Stmt.exec_assign_index (Rules.ofLimits {}) [0] 1 (some .add) (.string "!") "x"
    outer last (.string "!") nested start rfl (by unfold Machine.Sees; decide) untouched countable
  have succeeds : (EStateM.run' (emphasis.exec (Rules.ofLimits {}) [0]) nested).isSome := by
    decide +kernel
  have result : ((emphasis.exec (Rules.ofLimits {}) [0]).left nested).lastValue.display = "b!" := by
    decide +kernel
  unfold EStateM.run' EStateM.run at succeeds
  unfold left at result
  cases ends with
  | ok run h =>
    obtain ⟨rfl, old, new, -, replaced⟩ := h
    have run : emphasis.exec (Rules.ofLimits {}) [0] nested = _ := run
    rw [run] at result
    exact ⟨_, old, new, run, result, replaced⟩
  | error run _ =>
    have run : emphasis.exec (Rules.ofLimits {}) [0] nested = _ := run
    rw [run] at succeeds
    exact absurd succeeds Bool.false_ne_true

end SheetScript
