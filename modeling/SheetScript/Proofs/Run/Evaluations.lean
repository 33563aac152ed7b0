import Mathlib.Data.List.Count
import SheetScript.Proofs.Run.IndexAssignment

/-!
# What an assignment to a place evaluates

To write a changed container back, `x[i]...[k] = v` walks through the indices in front of the last
one again, once for each container on the way: with `k` indices, the index at position `i` is
evaluated `k - i` times. So only the right-hand side and the last index are evaluated once.

* `Act.Visits`: a step evaluates certain expressions, in order, and does nothing else to the state
  but at its end.
* `Target.visits` lists what the assignment evaluates after the right-hand side, and
  `Target.count_visits` counts an index in it.
* `Stmt.visits_assign_index` is the statement for all indices, and `Stmt.ends_assign_index` says
  which place is replaced when the indices in front of the last one have no side effects.
-/

namespace SheetScript

open Relation Act

/-! ## Evaluating expressions in order -/

section Order

variable (rules : Rules) (chain : Chain)

/-- Evaluating expressions in order leads from one state to another. -/
def Machine.Evaluates (es : List Expr) (m m' : Machine) : Prop :=
  ∃ values, Expr.evalAll rules chain es m = .ok values m'

/-- Evaluating the first few of some expressions in order, as far as that succeeds, leads from one
state to another. -/
def Machine.Stops (es : List Expr) (m m' : Machine) : Prop :=
  ∃ front, front <+: es ∧ m' = (Expr.evalAll rules chain front).left m

theorem Expr.evalAll_append (es es' : List Expr) :
    evalAll rules chain (es ++ es') =
      (do return (← evalAll rules chain es) ++ (← evalAll rules chain es')) := by
  induction es with
  | nil => simp [evalAll]
  | cons e rest ih => simp [evalAll, ih]

variable {rules chain} {es es' : List Expr} {m m₁ m' : Machine}

theorem Expr.evalAll_cons_eq_ok {e : Expr} {values : List Value} :
    evalAll rules chain (e :: es) m = .ok values m' ↔
      ∃ v m₁ rest, e.eval rules chain m = .ok v m₁ ∧ evalAll rules chain es m₁ = .ok rest m' ∧
        values = v :: rest := by
  rw [evalAll]
  constructor
  · intro run
    obtain ⟨v, m₁, first, more⟩ := exists_of_bind_eq_ok run
    obtain ⟨rest, m₂, others, last⟩ := exists_of_bind_eq_ok more
    obtain ⟨rfl, rfl⟩ := EStateM.Result.ok.inj last
    exact ⟨v, m₁, rest, first, others, rfl⟩
  · rintro ⟨v, m₁, rest, first, others, rfl⟩
    rw [bind_ok first, bind_ok others]
    rfl

theorem Expr.evalAll_append_of_ok {values : List Value}
    (run : evalAll rules chain es m = .ok values m₁) :
    evalAll rules chain (es ++ es') m =
      match evalAll rules chain es' m₁ with
      | .ok more m' => .ok (values ++ more) m'
      | .error e m' => .error e m' := by
  rw [evalAll_append, bind_ok run]
  cases run' : evalAll rules chain es' m₁ with
  | ok more m' =>
    rw [bind_ok run']
    rfl
  | error e m' => rw [bind_error run']

namespace Machine

theorem evaluates_nil (m : Machine) : Evaluates rules chain [] m m := ⟨[], rfl⟩

theorem stops_nil (es : List Expr) (m : Machine) : Stops rules chain es m m :=
  ⟨[], List.nil_prefix, rfl⟩

theorem Evaluates.append (h : Evaluates rules chain es m m₁)
    (h' : Evaluates rules chain es' m₁ m') : Evaluates rules chain (es ++ es') m m' := by
  obtain ⟨values, run⟩ := h
  obtain ⟨more, run'⟩ := h'
  exact ⟨values ++ more, by rw [Expr.evalAll_append_of_ok run, run']⟩

theorem Stops.append (h : Stops rules chain es m m') (es' : List Expr) :
    Stops rules chain (es ++ es') m m' :=
  let ⟨front, within, eq⟩ := h
  ⟨front, within.trans (List.prefix_append es es'), eq⟩

theorem Evaluates.stops (h : Evaluates rules chain es m m₁)
    (h' : Stops rules chain es' m₁ m') : Stops rules chain (es ++ es') m m' := by
  obtain ⟨values, run⟩ := h
  obtain ⟨front, within, rfl⟩ := h'
  refine ⟨es ++ front, (List.prefix_append_right_inj es).2 within, ?_⟩
  rw [left, left, Expr.evalAll_append_of_ok run]
  cases Expr.evalAll rules chain front m₁ <;> rfl

end Machine

end Order

/-! ## Steps that evaluate expressions -/

section Visits

variable {α β : Type} {rules : Rules} {chain : Chain} {es es' : List Expr}

/-- A step evaluates some expressions, in order, and then changes the state in some way; if it
fails, it has evaluated the first few of them. -/
def Act.Visits (rules : Rules) (chain : Chain) (es : List Expr) (act : Run α)
    (change : Machine → Machine → Prop) : Prop :=
  ∀ m, Ends act m (fun _ m' => ∃ m₁, m.Evaluates rules chain es m₁ ∧ change m₁ m')
    (m.Stops rules chain es)

namespace Act

variable {change : Machine → Machine → Prop} {act : Run α} {f : α → Run β}

theorem visits_eval (e : Expr) : Visits rules chain [e] (e.eval rules chain) Eq := by
  intro m
  cases run : e.eval rules chain m with
  | ok v m' =>
    have all : Expr.evalAll rules chain [e] m = .ok [v] m' :=
      Expr.evalAll_cons_eq_ok.2 ⟨v, m', [], run, rfl, rfl⟩
    exact .ok run ⟨m', ⟨[v], all⟩, rfl⟩
  | error err m' =>
    have all : Expr.evalAll rules chain [e] m = .error err m' := by
      rw [Expr.evalAll]
      change EStateM.bind _ _ m = _
      rw [EStateM.bind, run]
    exact .error run ⟨[e], List.prefix_rfl, by rw [left, all]⟩

/-- A step that only looks at the state evaluates nothing. -/
theorem visits_nil (looks : Goes Eq act) : Visits rules chain [] act Eq := by
  intro m
  have path := looks m
  rw [reflTransGen_eq_self, left] at path
  cases run : act m with
  | ok a m' =>
    rw [run] at path
    exact .ok run ⟨m, m.evaluates_nil, path⟩
  | error e m' =>
    rw [run] at path
    obtain rfl : m = m' := path
    exact .error run (m.stops_nil [])

theorem Visits.bind (first : Visits rules chain es act Eq)
    (next : ∀ a, Visits rules chain es' (f a) change) :
    Visits rules chain (es ++ es') (act >>= f) change := by
  intro m
  refine ((first m).mono (fun _ _ h => h) fun m' h => h.append es').bind ?_
  rintro a _ ⟨m₁, evaluates, rfl⟩
  refine (next a m₁).mono ?_ fun m' h => evaluates.stops h
  rintro b m' ⟨m₂, evaluates', changed⟩
  exact ⟨m₂, evaluates.append evaluates', changed⟩

theorem Visits.after (looks : Goes Eq act) (next : ∀ a, Visits rules chain es (f a) change) :
    Visits rules chain es (act >>= f) change :=
  (visits_nil looks).bind next

/-- What a step gives may be exchanged. -/
theorem Visits.andReturn (h : Visits rules chain es act change) (b : β) :
    Visits rules chain es (do let _ ← act; return b) change :=
  fun m => (h m).bind fun _ _ given => .ok rfl given

end Act

/-- The value of a place of a variable takes each index once. -/
theorem Expr.visits_indexed (name : String) (path : List Expr) :
    Visits rules chain path ((indexed name path).eval rules chain) Eq := by
  induction path using List.reverseRecOn with
  | nil => exact visits_nil (goes_valueOf chain name)
  | append_singleton path e ih =>
    rw [indexed_concat, eval]
    refine ih.bind fun container => ?_
    exact (visits_eval e).bind fun position => visits_nil (goes_ofExcept _)

end Visits

/-! ## Assignments -/

namespace Target

/-- The positions of the indices that an assignment to a place with `k` indices evaluates, in order:
the last index; then, for its container, all the others; and then what it takes to assign the
container to its place. -/
def visits : Nat → List Nat
  | 0 => []
  | k + 1 => k :: (List.range k ++ visits k)

theorem lt_of_mem_visits {i k : Nat} (mem : i ∈ visits k) : i < k := by
  induction k with
  | zero => exact absurd mem List.not_mem_nil
  | succ k ih =>
    rw [visits, List.mem_cons, List.mem_append, List.mem_range] at mem
    rcases mem with rfl | inside | later
    · exact Nat.lt_add_one i
    · omega
    · exact (ih later).trans (Nat.lt_add_one k)

/-- **An index is evaluated once for itself and once for each index behind it.** -/
theorem count_visits {i k : Nat} (inside : i < k) : (visits k).count i = k - i := by
  induction k with
  | zero => omega
  | succ k ih =>
    rw [visits, List.count_cons, List.count_append]
    obtain rfl | inside : i = k ∨ i < k := by omega
    · have unseen : (visits i).count i = 0 :=
        List.count_eq_zero.2 fun mem => (lt_of_mem_visits mem).false
      have outside : (List.range i).count i = 0 := List.count_eq_zero.2 List.not_mem_range_self
      simp [unseen, outside]
    · have once : (List.range k).count i = 1 :=
        List.count_eq_one_of_mem List.nodup_range (List.mem_range.2 inside)
      rw [ih inside, once, beq_false_of_ne inside.ne', if_neg Bool.false_ne_true]
      omega

/-- The indices that an assignment to a place evaluates, in order. -/
def visited (path : List Expr) : List Expr := (visits path.length).filterMap (path[·]?)

theorem filterMap_getElem?_append {path : List Expr} (more : List Expr) {positions : List Nat}
    (inside : ∀ i ∈ positions, i < path.length) :
    positions.filterMap ((path ++ more)[·]?) = positions.filterMap (path[·]?) :=
  List.filterMap_congr fun i mem => List.getElem?_append_left (inside i mem)

theorem filterMap_getElem?_range (path : List Expr) :
    (List.range path.length).filterMap (path[·]?) = path := by
  induction path using List.reverseRecOn with
  | nil => rfl
  | append_singleton path e ih =>
    rw [List.length_append, List.length_singleton, List.range_succ, List.filterMap_append,
      filterMap_getElem?_append [e] fun i mem => List.mem_range.1 mem, ih]
    simp

theorem visited_concat (path : List Expr) (e : Expr) :
    visited (path ++ [e]) = e :: (path ++ visited path) := by
  rw [visited, List.length_append, List.length_singleton, visits, List.filterMap_cons,
    List.filterMap_append, filterMap_getElem?_append [e] fun i mem => List.mem_range.1 mem,
    filterMap_getElem?_append [e] fun i mem => lt_of_mem_visits mem, filterMap_getElem?_range,
    List.getElem?_concat_length]
  rfl

/-- The only change is an assignment to a variable. -/
def Assigns (chain : Chain) (name : String) (m m' : Machine) : Prop :=
  ∃ new, m' = { m with scopes := m.scopes.assign chain name new }

variable {rules : Rules} {chain : Chain}

theorem goes_checkFree (name : String) : Goes Eq (checkFree name) :=
  goes_get_bind fun m => by
    split_ifs
    · exact goes_throw _ m
    · exact goes_pure _ m

/-- To store at a place walks through the indices in front of it, and then through those in front
of its container. -/
theorem visits_storeAt (name : String) (path : List Expr) (op : Option Operator)
    (position value : Value) :
    Visits rules chain (path ++ visited path)
      (storeAt rules chain op position value (Expr.indexed name path)) (Assigns chain name) := by
  induction path using List.reverseRecOn generalizing op position value with
  | nil =>
    refine .after (Expr.goes_valueOf chain name) fun container => ?_
    refine .after (goes_ofExcept _) fun value => ?_
    refine .after (goes_ofExcept _) fun container => ?_
    refine .after (goes_checkFree name) fun _ => ?_
    exact fun m => .ok rfl ⟨m, m.evaluates_nil, container, rfl⟩
  | append_singleton path e ih =>
    have walk : Visits rules chain (path ++ [e]) _ Eq := Expr.visits_indexed name (path ++ [e])
    rw [Expr.indexed_concat] at walk
    rw [Expr.indexed_concat, storeAt, visited_concat]
    refine walk.bind fun container => ?_
    refine .after (goes_ofExcept _) fun value => ?_
    refine .after (goes_ofExcept _) fun changed => ?_
    refine (visits_eval e).bind fun outer => ?_
    exact (ih none outer _).andReturn value

end Target

/-! ## The statement -/

namespace Stmt

variable (rules : Rules) (chain : Chain) (line : Nat) (op : Option Operator) (rhs : Expr)
  (name : String)

/-- What is evaluated, in order, and that nothing else happens before the variable is assigned. -/
theorem visits_assign_index (path : List Expr) (last : Expr) (before : Machine) :
    Ends (exec rules chain (.assign line (.index (Expr.indexed name path) last) op rhs)) before
      (fun flow m' => flow = .next ∧ ∃ m₁ new,
        Machine.Evaluates rules chain (rhs :: Target.visited (path ++ [last]))
          { before with line := line } m₁ ∧
        m' = { m₁ with scopes := m₁.scopes.assign chain name new, lastValue := m'.lastValue })
      (fun m' => ∃ m₁,
        Machine.Stops rules chain (rhs :: Target.visited (path ++ [last]))
          { before with line := line } m₁ ∧
        m' = m₁.noteFailure line) := by
  have stores : ∀ value, Visits rules chain (Target.visited (path ++ [last]))
      (Target.store rules chain op value (.index (Expr.indexed name path) last))
      (Target.Assigns chain name) := fun value => by
    rw [Target.visited_concat, Target.store]
    exact (visits_eval last).bind fun position => Target.visits_storeAt name path op position value
  rw [exec]
  refine Machine.ends_atLine (Ends.bind ((visits_eval rhs _).mono (fun _ _ h => h)
    fun m' stops => ⟨m', stops.append _, rfl⟩) ?_)
  rintro value _ ⟨m₁, evaluates, rfl⟩
  refine Ends.bind ((stores value m₁).mono (fun _ _ h => h)
    fun m' stops => ⟨m', evaluates.stops stops, rfl⟩) ?_
  rintro result _ ⟨m₂, evaluates', new, rfl⟩
  exact .ok rfl ⟨rfl, m₂, new, evaluates.append evaluates', rfl⟩

/-- The place that is replaced, when the indices in front of the last one have no side effects
once the right-hand side and the last index have been evaluated. -/
theorem ends_assign_index (outer : List IndexValue) (last : Expr) (value position : Value)
    (before start : Machine)
    (values : Expr.evalAll rules chain [rhs, last] { before with line := line } =
      .ok [value, position] start)
    (sees : start.Sees chain) (untouched : start.Untouched rules chain outer)
    (countable : ∀ old, Expr.valueOf chain name start = .ok old start →
      old.Countable (outer.map IndexValue.value ++ [position])) :
    Ends (exec rules chain
        (.assign line (.index (Expr.indexed name (outer.map IndexValue.expr)) last) op rhs))
      before
      (fun flow m' => flow = .next ∧ ∃ old new,
        Target.combine op (old.getAlong (outer.map IndexValue.value ++ [position])) value =
          .ok m'.lastValue ∧
        Machine.PlaceReplaced chain name (outer.map IndexValue.value ++ [position])
          m'.lastValue start m' old new)
      (fun m' => start.SameVariables m') := by
  obtain ⟨v, m₁, rest, rhs_value, more, eq⟩ := Expr.evalAll_cons_eq_ok.1 values
  obtain ⟨p, m₂, rest, last_value, done, rfl⟩ := Expr.evalAll_cons_eq_ok.1 more
  obtain ⟨rfl, rfl⟩ : [] = rest ∧ m₂ = start := EStateM.Result.ok.inj done
  obtain ⟨rfl, rfl⟩ : value = v ∧ position = p := by simpa using eq
  have countable' : ∀ old, m₂.read chain name = .ok old →
      old.Countable (outer.map IndexValue.value ++ [position]) := fun old read =>
    countable old (by rw [Expr.valueOf_eq, read])
  have stored : Ends (Target.storeAt rules chain op position value
      (Expr.indexed name (outer.map IndexValue.expr))) m₂ _ _ :=
    (Target.ends_storeAt untouched sees (List.Subset.refl outer) (.refl position) .refl
      countable').mono (fun _ _ h => h) fun m' reached =>
        (untouched.same m' reached).noteFailure line
  rw [exec]
  refine Machine.ends_atLine (ends_bind_of_ok rhs_value ?_)
  rw [Target.store]
  refine Ends.bind (ends_bind_of_ok last_value stored) ?_
  rintro result _ ⟨m₃, reached, free, old, new, read, combined, replaced, rfl⟩
  exact .ok rfl ⟨rfl, old, new, combined,
    (untouched.same m₃ reached).placeReplaced sees free read replaced result⟩

/-- **What an assignment to a place inside a variable evaluates, and where it stores.** It
evaluates the right-hand side, the last index, and then the other indices, each of them once for
itself and once for each index behind it; besides that it only assigns the variable. So each index
is evaluated once if there is only one, and not otherwise.

If the indices in front of the last one have no side effects once the right-hand side and the last
index have been evaluated, then their values and that of the last index lead to the place that is
replaced, and nothing else changes. -/
theorem exec_assign_place (path : List Expr) (last : Expr) (before : Machine) :
    Ends (exec rules chain (.assign line (.index (Expr.indexed name path) last) op rhs)) before
      (fun flow m' => flow = .next ∧ ∃ m₁ new,
        Machine.Evaluates rules chain (rhs :: Target.visited (path ++ [last]))
          { before with line := line } m₁ ∧
        m' = { m₁ with scopes := m₁.scopes.assign chain name new, lastValue := m'.lastValue })
      (fun m' => ∃ m₁,
        Machine.Stops rules chain (rhs :: Target.visited (path ++ [last]))
          { before with line := line } m₁ ∧
        m' = m₁.noteFailure line) ∧
    (∀ i ≤ path.length,
      (Target.visits (path.length + 1)).count i = path.length + 1 - i) ∧
    ((∀ i ≤ path.length, (Target.visits (path.length + 1)).count i = 1) ↔ path = []) ∧
    ∀ (outer : List IndexValue) (value position : Value) (start : Machine),
      outer.map IndexValue.expr = path →
      Expr.evalAll rules chain [rhs, last] { before with line := line } =
        .ok [value, position] start →
      start.Sees chain → start.Untouched rules chain outer →
      (∀ old, Expr.valueOf chain name start = .ok old start →
        old.Countable (outer.map IndexValue.value ++ [position])) →
      Ends (exec rules chain (.assign line (.index (Expr.indexed name path) last) op rhs)) before
        (fun flow m' => flow = .next ∧ ∃ old new,
          Target.combine op (old.getAlong (outer.map IndexValue.value ++ [position])) value =
            .ok m'.lastValue ∧
          Machine.PlaceReplaced chain name (outer.map IndexValue.value ++ [position])
            m'.lastValue start m' old new)
        (fun m' => start.SameVariables m') := by
  have count : ∀ i ≤ path.length,
      (Target.visits (path.length + 1)).count i = path.length + 1 - i :=
    fun i le => Target.count_visits (Nat.lt_succ_of_le le)
  refine ⟨visits_assign_index rules chain line op rhs name path last before, count, ⟨?_, ?_⟩, ?_⟩
  · intro once
    have first := (count 0 (Nat.zero_le _)).symm.trans (once 0 (Nat.zero_le _))
    exact List.eq_nil_of_length_eq_zero (by omega)
  · rintro rfl i le
    rw [count i le, Nat.le_zero.1 le]
    rfl
  · rintro outer value position start rfl values sees untouched countable
    exact ends_assign_index rules chain line op rhs name outer last value position before start
      values sees untouched countable

end Stmt

/-- `pick` leaves a trace and gives the key of an entry; `x` holds a map with that entry. -/
def picking : Machine where
  world := ⟨{}, {}⟩
  scopes := #[[
    ("pick", .function ⟨0, ⟨"pick", [], [
      .expression 2 (.call (.variable "log") [.string "picked"]),
      .leave 3 (some (.string "a"))], 1⟩, [0]⟩),
    ("x", .map [("o", .map [("a", .string "old")])])]]

/-- `x["o"][pick()] = "new"` -/
def picked : Stmt :=
  .assign 4 (.index (.index (.variable "x") (.string "o")) (.call (.variable "pick") [])) none
    (.string "new")

theorem picking_exec_assign_place :
    ∃ m' start old new, picked.exec (Rules.ofLimits {}) [0] picking = .ok .next m' ∧
      m'.world.context.effects.logs = #["picked"] ∧
      Machine.PlaceReplaced [0] "x" [.string "o", .string "a"] m'.lastValue start m' old new := by
  let start := Act.left
    (Expr.evalAll (Rules.ofLimits {}) [0] [.string "new", .call (.variable "pick") []])
    { picking with line := 4 }
  have untouched : start.Untouched (Rules.ofLimits {}) [0] [⟨.string "o", .string "o"⟩] := by
    refine Machine.untouched_of_steady _ _ (by simp [Expr.Steady]) ?_
    simp only [List.forall_mem_cons]
    refine ⟨?_, fun _ mem => absurd mem List.not_mem_nil⟩
    rintro position m' ⟨⟩
    rfl
  have countable : ∀ old, Expr.valueOf [0] "x" start = .ok old start →
      old.Countable [.string "o", .string "a"] := by
    intro old read
    have here : Expr.valueOf [0] "x" start =
        .ok (.map [("o", .map [("a", .string "old")])]) start := rfl
    obtain rfl := (EStateM.Result.ok.inj (here.symm.trans read)).1
    have entry : (Value.map [("o", .map [("a", .string "old")])]).get (.string "o") =
        .ok (.map [("a", .string "old")]) := rfl
    exact .cons (by rintro items ⟨⟩) entry ⟨by rintro items ⟨⟩, fun _ _ => trivial⟩
  obtain ⟨-, -, -, replaces⟩ := Stmt.exec_assign_place (Rules.ofLimits {}) [0] 4 none
    (.string "new") "x" [.string "o"] (.call (.variable "pick") []) picking
  have ends := replaces [⟨.string "o", .string "o"⟩] (.string "new") (.string "a") start rfl rfl
    (by unfold Machine.Sees; decide) untouched countable
  have runs : picked.exec (Rules.ofLimits {}) [0] picking =
      .ok .next ((picked.exec (Rules.ofLimits {}) [0]).left picking) := rfl
  cases ends with
  | ok run h =>
    obtain ⟨-, old, new, -, replaced⟩ := h
    obtain ⟨-, rfl⟩ := EStateM.Result.ok.inj (runs.symm.trans run)
    exact ⟨_, start, old, new, runs, rfl, replaced⟩
  | error run _ => cases runs.symm.trans run

/-- `n` counts the calls of `next`, which gives the count before; `x` is a square of zeros. -/
def counting : Program where
  statements := [
    .assign 1 (.variable "n") none (.number 0),
    .function 2 "next" [] [
      .assign 3 (.variable "n") (some .add) (.number 1),
      .leave 4 (some (.binary .subtract (.variable "n") (.number 1)))],
    .assign 5 (.variable "x") none
      (.array [.array [.number 0, .number 0], .array [.number 0, .number 0]])]

/-- The call `next()` -/
def nextCall : Expr := .call (.variable "next") []

/-- `x[next()][0] = 7` -/
def counted : Stmt :=
  .assign 6 (.index (.index (.variable "x") nextCall) (.number 0)) none (.number 7)

/-- **An index in front of the last one is evaluated twice.** To evaluate the right-hand side and
both indices once, in whatever order, calls `next` once; the assignment calls it twice, and it
stores at the second place, not at the first one. -/
theorem exists_index_evaluated_twice :
    ∃ start m', start = (counting.exec {}).left { world := ⟨{}, {}⟩ } ∧
      counted.exec (Rules.ofLimits {}) [0] start = .ok .next m' ∧
      (m'.scopes.lookup? [0] "n").map Value.display = some "2" ∧
      (m'.scopes.lookup? [0] "x").map Value.display = some "[[0, 0], [7, 0]]" ∧
      ∀ order m₁, order.Perm [.number 7, nextCall, .number 0] →
        Machine.Evaluates (Rules.ofLimits {}) [0] order { start with line := 6 } m₁ →
        (m₁.scopes.lookup? [0] "n").map Value.display = some "1" := by
  let start := (counting.exec {}).left { world := ⟨{}, {}⟩ }
  let shown (name : String) (m : Machine) : Option String :=
    (m.scopes.lookup? [0] name).map Value.display
  have succeeds : (EStateM.run' (counted.exec (Rules.ofLimits {}) [0]) start).isSome := by
    decide +kernel
  have calls : shown "n" ((counted.exec (Rules.ofLimits {}) [0]).left start) = some "2" := by
    decide +kernel
  have square : shown "x" ((counted.exec (Rules.ofLimits {}) [0]).left start) =
      some "[[0, 0], [7, 0]]" := by decide +kernel
  have once : ∀ order ∈ List.permutations' [.number 7, nextCall, .number 0],
      shown "n" ((Expr.evalAll (Rules.ofLimits {}) [0] order).left { start with line := 6 }) =
        some "1" := by decide +kernel
  have ends := Stmt.visits_assign_index (Rules.ofLimits {}) [0] 6 none (.number 7) "x" [nextCall]
    (.number 0) start
  unfold EStateM.run' EStateM.run at succeeds
  unfold left at calls square once
  cases ends with
  | error run _ =>
    have run : counted.exec (Rules.ofLimits {}) [0] start = _ := run
    rw [run] at succeeds
    exact absurd succeeds Bool.false_ne_true
  | ok run h =>
    obtain ⟨rfl, -⟩ := h
    have run : counted.exec (Rules.ofLimits {}) [0] start = _ := run
    rw [run] at calls square
    refine ⟨start, _, rfl, run, calls, square, fun order m₁ perm ⟨values, evaluates⟩ => ?_⟩
    have count := once order (List.mem_permutations'.2 perm)
    rwa [evaluates] at count

end SheetScript
