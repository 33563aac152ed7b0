import SheetScript.Engine.Basic
import SheetScript.Proofs.Run.Discreet

/-!
# Where functions are declared

A block binds its functions when it is entered, so a program whose declarations are moved within
their blocks does the same. A program is compared with its hoisted form, step by step; two programs
that are the same when hoisted then do the same.

* `Machine.Like` compares two machines from line to line, `Machine.LikeAt` within a line, when a
  call would note the line in its trace. `Machine.Follows` and `Machine.Tracks` compare steps.
* `Expr.tracks_eval` goes by recursion on expressions, `Stmt.follows_exec` on statements: a
  statement follows its hoisted form. To run a declaration is to go to its line, and the next
  statement leaves that line, so `Stmt.mirrors_execAll_insertIn` can put statements in any place
  among declarations.
* `transparent_invokeAt` goes by induction on the calls that may still become active.
* `Engine.run_moved`: a moved declaration changes neither a run nor the handling of an event.
-/

namespace SheetScript

open Act

/-- Two options that look alike: nothing is there, or what is there looks alike. -/
theorem option_alike {α β : Type} {look : α → β} {a? b? : Option α}
    (h : a?.map look = b?.map look) :
    (a? = none ∧ b? = none) ∨ ∃ a b, a? = some a ∧ b? = some b ∧ look a = look b := by
  cases a? with
  | none => exact .inl ⟨rfl, Option.map_eq_none_iff.1 h.symm⟩
  | some a =>
    obtain ⟨b, found, alike⟩ := Option.map_eq_some_iff.1 h.symm
    exact .inr ⟨a, b, rfl, found, alike.symm⟩

/-! ## Machines -/

namespace Machine

variable {α β : Type} {look : α → β} {m m' : Machine}

/-- Two runs are in the same state, but for the line and for the places of declarations in
functions. -/
structure Like (m m' : Machine) : Prop where
  world : m.world.Shared m'.world
  scopes : m.scopes.hoisted = m'.scopes.hoisted
  frames : m.frames = m'.frames
  iterations : m.iterations = m'.iterations
  entries : m.entries = m'.entries
  lastValue : m.lastValue.hoisted = m'.lastValue.hoisted
  failure : m.failure = m'.failure

/-- Two runs are in the same state, at the same line. -/
structure LikeAt (m m' : Machine) : Prop extends Like m m' where
  line : m.line = m'.line

theorem Like.symm (h : Like m m') : Like m' m :=
  ⟨⟨h.world.1.symm, h.world.1 ▸ h.world.2⟩, h.scopes.symm, h.frames.symm, h.iterations.symm,
    h.entries.symm, h.lastValue.symm, h.failure.symm⟩

theorem Like.trans {m'' : Machine} (h : Like m m') (h' : Like m' m'') : Like m m'' :=
  ⟨⟨h.world.1.trans h'.world.1, h.world.2⟩, h.scopes.trans h'.scopes, h.frames.trans h'.frames,
    h.iterations.trans h'.iterations, h.entries.trans h'.entries, h.lastValue.trans h'.lastValue,
    h.failure.trans h'.failure⟩

/-- The line of a machine does not count. -/
theorem Like.at_lines (h : Like m m') (line line' : Nat) :
    Like { m with line := line } { m' with line := line' } :=
  ⟨h.world, h.scopes, h.frames, h.iterations, h.entries, h.lastValue, h.failure⟩

theorem LikeAt.like (m m' : Machine) (h : LikeAt m m') : Like m m' := h.toLike

/-- Within a line, two runs go along with each other. -/
def Tracks (look : α → β) (act act' : Run α) : Prop := Mirrors LikeAt LikeAt look act act'

/-- From line to line, two runs go along with each other. -/
def Follows (look : α → β) (act act' : Run α) : Prop := Mirrors Like Like look act act'

/-! ## The kinds of steps -/

theorem tracks_onWorld {act act' : Act World α}
    (h : Mirrors World.Shared World.Shared look act act') :
    Tracks look (onWorld act) (onWorld act') := by
  intro m m' hm
  unfold onWorld Act.on
  dsimp only
  have inner := h hm.world
  generalize act m.world = r, act' m'.world = r' at inner
  cases inner with
  | ok same next => exact .ok same ⟨{ hm.toLike with world := next }, hm.line⟩
  | error next => exact .error ⟨{ hm.toLike with world := next }, hm.line⟩

theorem Like.noteFailure (h : Like m m') (line : Nat) :
    Like (m.noteFailure line) (m'.noteFailure line) := by
  unfold Machine.noteFailure
  rw [h.failure]
  cases m'.failure with
  | none => exact { h with failure := by rw [h.frames] }
  | some f => exact { h with failure := h.failure }

theorem mirrors_atLine {act act' : Run α} (line : Nat)
    (h : Mirrors LikeAt Like look act act') :
    Follows look (atLine line act) (atLine line act') := by
  intro m m' hm
  unfold atLine
  have inner := h ⟨hm.at_lines line line, rfl⟩
  generalize act { m with line := line } = r, act' { m' with line := line } = r' at inner
  cases inner with
  | ok same next => exact .ok same next
  | error next => exact .error (next.noteFailure line)

theorem Tracks.atLine {act act' : Run α} (line : Nat) (h : Tracks look act act') :
    Follows look (Machine.atLine line act) (Machine.atLine line act') :=
  mirrors_atLine line (h.mono LikeAt.like)

theorem tracks_inCall {act act' : Run α} (name : String) (h : Follows look act act') :
    Tracks look (inCall name act) (inCall name act') := by
  intro m m' hm
  unfold inCall
  dsimp only
  have start : Like { m with frames := ⟨name, m.line⟩ :: m.frames }
      { m' with frames := ⟨name, m'.line⟩ :: m'.frames } :=
    { hm.toLike with frames := by rw [hm.line, hm.frames] }
  have back : ∀ {n n' : Machine}, Like n n' →
      LikeAt { n with frames := n.frames.drop 1, line := m.line }
        { n' with frames := n'.frames.drop 1, line := m'.line } := fun next =>
    ⟨{ next with frames := congrArg (List.drop 1) next.frames }, hm.line⟩
  have inner := h start
  generalize act { m with frames := ⟨name, m.line⟩ :: m.frames } = r,
    act' { m' with frames := ⟨name, m'.line⟩ :: m'.frames } = r' at inner
  cases inner with
  | ok same next => exact .ok same (back next)
  | error next => exact .error (back next)

theorem mirrors_lookup? {R : Machine → Machine → Prop}
    (like : ∀ m m', R m m' → Like m m') (chain : Chain) (name : String) :
    Mirrors R R (Option.map Value.hoisted) (lookup? chain name) (lookup? chain name) := by
  intro m m' hm
  refine .ok ?_ hm
  rw [← Scopes.lookup?_hoisted, (like m m' hm).scopes, Scopes.lookup?_hoisted]

theorem Like.assign (h : Like m m') (chain : Chain) (name : String)
    {v v' : Value} (same : v.hoisted = v'.hoisted) : Like
      { m with scopes := m.scopes.assign chain name v }
      { m' with scopes := m'.scopes.assign chain name v' } :=
  { h with scopes := by rw [Scopes.assign_hoisted, Scopes.assign_hoisted, h.scopes, same] }

theorem tracks_newScope {bindings bindings' : List (String × Value)}
    (same : Entries.mapValues Value.hoisted bindings = Entries.mapValues Value.hoisted bindings') :
    Tracks id (newScope bindings) (newScope bindings') := by
  intro m m' hm
  refine .ok ?_ ⟨{ hm.toLike with scopes := ?_ }, hm.line⟩
  · rw [← Scopes.size_hoisted, hm.scopes, Scopes.size_hoisted]
  · rw [Scopes.push_hoisted, Scopes.push_hoisted, hm.scopes, same]

/-- It does not matter where in a block its functions are declared. -/
theorem follows_declare (chain : Chain) (block : List Stmt) :
    Follows id (declare chain (Stmt.functions block))
      (declare chain (Stmt.functions (Stmt.hoistedAll block))) := by
  unfold declare
  rw [Stmt.isEmpty_functions_hoistedAll]
  split
  · exact mirrors_pure rfl
  · refine mirrors_modify fun m m' hm => { hm with
      scopes := ?_
      entries := congrArg (· + 1) hm.entries }
    have declares := fun scopes : Scopes => scopes.declare_hoisted chain m.entries
    have twice := declares m'.scopes (Stmt.hoistedAll block)
    rw [Stmt.hoistedAll_hoistedAll, ← hm.scopes, ← declares] at twice
    rw [hm.entries] at twice ⊢
    exact twice.symm

theorem follows_startStep (limits : Limits) :
    Follows id (startStep limits) (startStep limits) := by
  intro m m' hm
  unfold startStep
  rw [hm.iterations]
  split
  · exact .ok rfl { hm with iterations := rfl }
  · exact .error hm

theorem tracks_keepValue {v v' : Value} (same : v.hoisted = v'.hoisted) :
    Tracks id (keepValue v) (keepValue v') := fun _ _ hm =>
  .ok rfl ⟨{ hm.toLike with lastValue := same }, hm.line⟩

/-- Two machines differ in the line only. -/
def SameButLine (m m' : Machine) : Prop := ∃ line, m' = { m with line := line }

theorem SameButLine.refl (m : Machine) : SameButLine m m := ⟨m.line, rfl⟩

theorem SameButLine.symm (h : SameButLine m m') : SameButLine m' m := by
  obtain ⟨line, rfl⟩ := h
  exact ⟨m.line, rfl⟩

theorem Like.trans_sameButLine {m'' : Machine} (h : Like m m')
    (h' : SameButLine m' m'') : Like m m'' := by
  obtain ⟨line, rfl⟩ := h'
  exact h.at_lines m.line line

end Machine

open Machine

/-! ## Calls of values -/

/-- Calls of functions that are the same when hoisted go along with each other. -/
def Rules.Transparent (rules : Rules) : Prop :=
  ∀ ⦃f f' : Closure⦄ ⦃args args' : List Value⦄,
    f.hoisted = f'.hoisted → args.map Value.hoisted = args'.map Value.hoisted →
    Tracks Value.hoisted (rules.invoke f args) (rules.invoke f' args')

section

variable {rules : Rules}

section Calls

variable (calls : rules.Transparent) {args args' : List Value}
  (same : args.map Value.hoisted = args'.map Value.hoisted)
include calls same

theorem Rules.tracks_callValue {callee callee' : Value}
    (alike : callee.hoisted = callee'.hoisted) (description : String) :
    Tracks Value.hoisted (rules.callValue callee args description)
      (rules.callValue callee' args' description) := by
  cases Value.alike_of_hoisted_eq alike with
  | array | map => exact mirrors_throw _
  | function h => exact calls h same
  | same =>
    cases callee with
    | function f => exact calls rfl same
    | builtin b => exact tracks_onWorld (b.call_mirrors same _)
    | native f =>
      refine mirrors_get_bind fun m m' hm => ?_
      obtain ⟨eq, discreet⟩ := hm.world
      rw [← eq]
      cases found : m.world.context.natives[f.place]? with
      | none => exact .error hm
      | some native =>
        have host := discreet.native native (List.mem_of_getElem? found) same
        refine tracks_onWorld (mirrors_onContext ?_) hm
        rintro c _ ⟨rfl, discreet⟩
        exact resembles_onEffects host discreet
    | _ => exact mirrors_throw _

theorem Rules.tracks_callMethod {receiver receiver' : Value}
    (alike : receiver.hoisted = receiver'.hoisted) (name : String) :
    Tracks Value.hoisted (rules.callMethod receiver name args)
      (rules.callMethod receiver' name args') := by
  have method : Tracks Value.hoisted
      (onWorld (World.onContext (receiver.callMethod name args)))
      (onWorld (World.onContext (receiver'.callMethod name args'))) :=
    tracks_onWorld (mirrors_onContext (Value.callMethod_mirrors same alike name))
  -- a map may have a function under the name
  have ofMap : ∀ {entries entries' : List (String × Value)}, receiver = .map entries →
      receiver' = .map entries' → Tracks Value.hoisted
        (rules.callMethod receiver name args) (rules.callMethod receiver' name args') := by
    rintro entries entries' rfl rfl
    rw [Value.hoisted_map, Value.hoisted_map] at alike
    have found : (Entries.find? entries name).map Value.hoisted =
        (Entries.find? entries' name).map Value.hoisted := by
      rw [← Entries.find?_mapValues, Value.map.inj alike, Entries.find?_mapValues]
    unfold callMethod
    dsimp only
    obtain ⟨none, none'⟩ | ⟨f, f', found, found', alike⟩ := option_alike found
    · rw [none, none']
      exact method
    · rw [found, found']
      exact tracks_callValue calls same alike name
  cases Value.alike_of_hoisted_eq alike with
  | array | function => exact method
  | map => exact ofMap rfl rfl
  | same =>
    cases receiver with
    | map => exact ofMap rfl rfl
    | _ => exact method

end Calls

/-! ## Expressions -/

theorem Run.mirrors_ofExcept {α β : Type} {look : α → β} {R : Machine → Machine → Prop}
    {result result' : Except ScriptError α} (same : result.map look = result'.map look) :
    Mirrors R R look (Run.ofExcept result) (Run.ofExcept result') := Act.mirrors_ofExcept same

namespace Expr

theorem tracks_valueOf (chain : Chain) (name : String) :
    Tracks Value.hoisted (valueOf chain name) (valueOf chain name) := by
  unfold valueOf
  split
  · exact mirrors_pure rfl
  · refine mirrors_get_bind fun m m' hm => ?_
    rw [← hm.world.1]
    cases Entries.find? m.world.context.globals name with
    | some value => exact .ok rfl hm
    | none =>
      refine (mirrors_lookup? LikeAt.like chain name).then (fun found found' same => ?_) hm
      obtain ⟨rfl, rfl⟩ | ⟨v, v', rfl, rfl, alike⟩ := option_alike same
      · exact mirrors_throw _
      · exact mirrors_pure alike

mutual

/-- **An expression gives what looks alike.** -/
theorem tracks_eval (calls : rules.Transparent) (chain : Chain) : ∀ e : Expr,
    Tracks Value.hoisted (e.eval rules chain) (e.eval rules chain)
  | .number _ | .string _ | .bool _ | .null => mirrors_pure rfl
  | .variable name => tracks_valueOf chain name
  | .binary op left right => by
    unfold eval
    refine (tracks_eval calls chain left).then fun a a' first =>
      (tracks_eval calls chain right).then fun b b' second => Run.mirrors_ofExcept ?_
    rw [← op.apply_hoisted, first, second, op.apply_hoisted]
  | .logical op left right => by
    unfold eval
    refine (tracks_eval calls chain left).then fun a a' first => ?_
    have settled : settles op a = settles op a' := by
      unfold settles
      rw [← a.truthy_hoisted, first, a'.truthy_hoisted]
    rw [settled]
    split
    · exact mirrors_pure first
    · exact tracks_eval calls chain right
  | .unary op operand => by
    unfold eval
    refine (tracks_eval calls chain operand).then fun a a' same => Run.mirrors_ofExcept ?_
    rw [← op.apply_hoisted, same, op.apply_hoisted]
  | .call callee args => by
    have inner := tracks_eval calls chain callee
    have values := tracks_evalAll calls chain args
    cases callee with
    | property object name =>
      -- a call of a property is a call of a method
      unfold eval
      exact (tracks_eval calls chain object).then fun _ _ alike => values.then fun _ _ same =>
        rules.tracks_callMethod calls same alike name
    | _ =>
      unfold eval
      exact inner.then fun _ _ alike => values.then fun _ _ same =>
        rules.tracks_callValue calls same alike _
  | .property object name => by
    unfold eval
    refine (tracks_eval calls chain object).then fun v v' alike =>
      mirrors_get_bind fun m m' hm => ?_
    rw [← hm.world.1]
    exact Run.mirrors_ofExcept (v.property_same alike m.world.context name) hm
  | .index object position => by
    unfold eval
    refine (tracks_eval calls chain object).then fun a a' first =>
      (tracks_eval calls chain position).then fun b b' second => Run.mirrors_ofExcept ?_
    rw [← a.get_hoisted, first, second, a'.get_hoisted]
  | .array items => by
    unfold eval
    refine (tracks_evalAll calls chain items).then fun values values' same => mirrors_pure ?_
    rw [Value.hoisted_array, same, Value.hoisted_array]
  | .map entries => by
    unfold eval
    refine (tracks_evalEntries calls chain entries).then fun pairs pairs' same => mirrors_pure ?_
    rw [Value.hoisted_map, ← Entries.ofList_mapValues, same, Entries.ofList_mapValues,
      Value.hoisted_map]

theorem tracks_evalAll (calls : rules.Transparent) (chain : Chain) : ∀ es : List Expr,
    Tracks (List.map Value.hoisted) (evalAll rules chain es)
      (evalAll rules chain es)
  | [] => mirrors_pure rfl
  | e :: rest => by
    unfold evalAll
    exact (tracks_eval calls chain e).then fun _ _ first =>
      (tracks_evalAll calls chain rest).then fun _ _ others =>
      mirrors_pure (congrArg₂ List.cons first others)

theorem tracks_evalEntries (calls : rules.Transparent) (chain : Chain) :
    ∀ es : List (String × Expr),
    Tracks (Entries.mapValues Value.hoisted) (evalEntries rules chain es)
      (evalEntries rules chain es)
  | [] => mirrors_pure rfl
  | (key, e) :: rest => by
    unfold evalEntries
    exact (tracks_eval calls chain e).then fun _ _ first =>
      (tracks_evalEntries calls chain rest).then fun _ _ others =>
      mirrors_pure (congrArg₂ (fun v pairs => (key, v) :: pairs) first others)

end

end Expr

/-! ## Assignments -/

namespace Target

theorem tracks_checkFree (name : String) :
    Tracks id (checkFree name) (checkFree name) := by
  refine mirrors_get_bind fun m m' hm => ?_
  rw [← hm.world.1]
  split_ifs
  · exact .error hm
  · exact .ok rfl hm

theorem tracks_assign (chain : Chain) (name : String) {v v' : Value}
    (same : v.hoisted = v'.hoisted) :
    Tracks id (Machine.assign chain name v) (Machine.assign chain name v') :=
  mirrors_modify fun _ _ hm => ⟨hm.toLike.assign chain name same, hm.line⟩

theorem combine_hoisted (op : Option Operator) (old : Except ScriptError Value) (value : Value) :
    combine op (old.map Value.hoisted) value.hoisted =
      (combine op old value).map Value.hoisted := by
  cases op with
  | none => rfl
  | some op =>
    cases old with
    | error e => rfl
    | ok old => exact op.apply_hoisted old value

section

variable {container container' position position' value value' : Value}
  (first : container.hoisted = container'.hoisted) (second : position.hoisted = position'.hoisted)
  (third : value.hoisted = value'.hoisted)
include first second third

theorem tracks_combine (op : Option Operator) : Tracks Value.hoisted
    (Run.ofExcept (combine op (container.get position) value))
    (Run.ofExcept (combine op (container'.get position') value')) := by
  refine Run.mirrors_ofExcept ?_
  rw [← combine_hoisted, ← Value.get_hoisted, first, second, third, Value.get_hoisted,
    combine_hoisted]

theorem tracks_put : Tracks Value.hoisted
    (Run.ofExcept (container.put position value))
    (Run.ofExcept (container'.put position' value')) := by
  refine Run.mirrors_ofExcept ?_
  rw [← Value.put_hoisted, first, second, third, Value.put_hoisted]

end

theorem tracks_storeAt (calls : rules.Transparent) (chain : Chain) :
    ∀ (e : Expr) (op : Option Operator) {position position' value value' : Value},
      position.hoisted = position'.hoisted → value.hoisted = value'.hoisted →
      Tracks Value.hoisted (storeAt rules chain op position value e)
        (storeAt rules chain op position' value' e)
  | .variable name, op, _, _, _, _, place, same =>
    (Expr.tracks_valueOf chain name).then fun _ _ container =>
      (tracks_combine container place same op).then fun _ _ stored =>
      (tracks_put container place stored).then fun _ _ changed =>
      (tracks_checkFree name).then fun _ _ _ =>
      (tracks_assign chain name changed).then fun _ _ _ => mirrors_pure stored
  | .index object outer, op, _, _, _, _, place, same =>
    (Expr.tracks_eval calls chain _).then fun _ _ container =>
      (tracks_combine container place same op).then fun _ _ stored =>
      (tracks_put container place stored).then fun _ _ changed =>
      (Expr.tracks_eval calls chain outer).then fun _ _ position =>
      (tracks_storeAt calls chain object none position changed).then fun _ _ _ =>
        mirrors_pure stored
  -- nothing else can be assigned to
  | .number _, op, _, _, _, _, place, same | .string _, op, _, _, _, _, place, same
  | .bool _, op, _, _, _, _, place, same | .null, op, _, _, _, _, place, same
  | .binary .., op, _, _, _, _, place, same | .logical .., op, _, _, _, _, place, same
  | .unary .., op, _, _, _, _, place, same | .call .., op, _, _, _, _, place, same
  | .property .., op, _, _, _, _, place, same | .array _, op, _, _, _, _, place, same
  | .map _, op, _, _, _, _, place, same =>
    (Expr.tracks_eval calls chain _).then fun _ _ container =>
      (tracks_combine container place same op).then fun _ _ stored =>
      (tracks_put container place stored).then fun _ _ _ => mirrors_throw _

theorem tracks_store (calls : rules.Transparent) (chain : Chain) (op : Option Operator)
    {value value' : Value} (same : value.hoisted = value'.hoisted) (target : Target) :
    Tracks Value.hoisted (target.store rules chain op value)
      (target.store rules chain op value') := by
  rcases target with name | ⟨object, position⟩
  · refine (tracks_checkFree name).then fun _ _ _ =>
      (mirrors_lookup? LikeAt.like chain name).then fun old? old?' found => ?_
    have stored : ∀ {old old' : Except ScriptError Value},
        old.map Value.hoisted = old'.map Value.hoisted → Tracks Value.hoisted
          (Run.ofExcept (combine op old value)) (Run.ofExcept (combine op old' value')) :=
      fun olds => Run.mirrors_ofExcept (by
        rw [← combine_hoisted, olds, same, combine_hoisted])
    refine (stored ?_).then fun _ _ stored =>
      (tracks_assign chain name stored).then fun _ _ _ => mirrors_pure stored
    obtain ⟨rfl, rfl⟩ | ⟨old, old', rfl, rfl, alike⟩ := option_alike found
    · rfl
    · exact congrArg Except.ok alike
  · exact (Expr.tracks_eval calls chain position).then fun _ _ place =>
      tracks_storeAt calls chain object op place same

end Target

/-! ## Loops -/

/-- How a block ends, with the functions in the value hoisted. -/
def Flow.hoisted : Flow → Flow
  | .next => .next
  | .leave value => .leave value.hoisted

theorem Flow.alike_of_hoisted_eq {flow flow' : Flow} (h : flow.hoisted = flow'.hoisted) :
    (flow = .next ∧ flow' = .next) ∨
      ∃ value value', flow = .leave value ∧ flow' = .leave value' ∧
        value.hoisted = value'.hoisted := by
  cases flow with
  | next =>
    cases flow' with
    | next => exact .inl ⟨rfl, rfl⟩
    | leave value' => exact Flow.noConfusion h
  | leave value =>
    cases flow' with
    | next => exact Flow.noConfusion h
    | leave value' => exact .inr ⟨value, value', rfl, rfl, Flow.leave.inj h⟩

theorem Flow.leave_same {value value' : Value} (same : value.hoisted = value'.hoisted) :
    (leave value).hoisted = (leave value').hoisted := congrArg leave same

namespace Iteration

/-- What a loop goes over, with the functions in it hoisted. -/
def hoisted : Iteration → Iteration
  | items values => items (values.map Value.hoisted)
  | upTo count => upTo count

theorem ofValue_hoisted (v : Value) : ofValue v.hoisted = (ofValue v).map hoisted := by
  cases v with
  | array values => rw [Value.hoisted_array]; rfl
  | map entries =>
    rw [Value.hoisted_map, ofValue, Entries.keys_mapValues]
    simp [ofValue, Except.map, hoisted, Function.comp_def]
  | string s => simp [ofValue, Except.map, hoisted, Function.comp_def]
  | _ => rfl

section

variable {R : Machine → Machine → Prop} {step step' : Value → Run Flow}
  (h : ∀ v v', v.hoisted = v'.hoisted → Mirrors R R Flow.hoisted (step v) (step' v'))
include h

theorem mirrors_forEach {values values' : List Value}
    (same : values.map Value.hoisted = values'.map Value.hoisted) :
    Mirrors R R Flow.hoisted (forEach step values) (forEach step' values') := by
  induction values generalizing values' with
  | nil =>
    rw [List.map_eq_nil_iff.1 same.symm]
    exact mirrors_pure rfl
  | cons v rest ih =>
    obtain ⟨v', rest', rfl, alike, others⟩ := List.map_eq_cons_iff.1 same.symm
    refine (h v v' alike.symm).then fun flow flow' ends => ?_
    obtain ⟨rfl, rfl⟩ | ⟨value, value', rfl, rfl, -⟩ := Flow.alike_of_hoisted_eq ends
    · exact ih others.symm
    · exact mirrors_pure ends

theorem mirrors_forCount (start count : Nat) :
    Mirrors R R Flow.hoisted (forCount step start count) (forCount step' start count) := by
  induction count generalizing start with
  | zero => exact mirrors_pure rfl
  | succ count ih =>
    refine (h _ _ rfl).then fun flow flow' ends => ?_
    obtain ⟨rfl, rfl⟩ | ⟨value, value', rfl, rfl, -⟩ := Flow.alike_of_hoisted_eq ends
    · exact ih (start + 1)
    · exact mirrors_pure ends

theorem mirrors_run {iteration iteration' : Iteration}
    (same : iteration.hoisted = iteration'.hoisted) :
    Mirrors R R Flow.hoisted (iteration.run step) (iteration'.run step') := by
  cases iteration with
  | items values =>
    cases iteration' with
    | items values' => exact mirrors_forEach h (items.inj same)
    | upTo count' => exact Iteration.noConfusion same
  | upTo count =>
    cases iteration' with
    | items values' => exact Iteration.noConfusion same
    | upTo count' =>
      cases upTo.inj same
      exact mirrors_forCount h 0 count

end

end Iteration

/-! ## Statements -/

namespace Stmt

section

variable (rules) (chain : Chain)

/-- A statement does not look at the line before it. -/
theorem mirrors_exec_self (s : Stmt) :
    Mirrors SameButLine Eq id (s.exec rules chain) (s.exec rules chain) := by
  rintro m _ ⟨line, rfl⟩
  have same : s.exec rules chain { m with line := line } = s.exec rules chain m := by
    cases s <;> rfl
  rw [same]
  exact resembles_self (fun _ => rfl) _

/-- To run a declaration is to go to its line. -/
theorem mirrors_execAll_declaring (block : List Stmt) :
    Mirrors SameButLine SameButLine id (execAll rules chain block)
      (execAll rules chain (declaring none block)) := by
  have refl : ∀ m m', m = m' → SameButLine m m' := fun m _ eq => eq ▸ .refl m
  induction block with
  | nil => exact mirrors_pure rfl
  | cons s rest ih =>
    by_cases own : s.declares? = none
    · rw [← own, declaring_self, own]
      unfold execAll
      refine (mirrors_exec_self rules chain s).bind refl fun flow flow' same => ?_
      obtain rfl : flow = flow' := same
      cases flow with
      | next => exact ih.of_le refl
      | leave value => exact (mirrors_pure rfl).of_le refl
    · rw [declaring_of_ne own]
      cases s with
      | function line name params body =>
        rintro m _ ⟨line', rfl⟩
        exact ih ⟨line', rfl⟩
      | _ => exact absurd rfl own

/-- It does not matter where in a block a statement is put. -/
theorem mirrors_execAll_insertIn (block : List Stmt) (s : Stmt) :
    Mirrors SameButLine SameButLine id (execAll rules chain (s :: block))
      (execAll rules chain (insertIn block s)) := by
  intro m m' hm
  have front := mirrors_execAll_declaring rules chain (s :: block) hm
  have back := mirrors_execAll_declaring rules chain (insertIn block s) (.refl m')
  rw [declaring_insertIn] at back
  refine front.trans (back.symm fun _ _ => SameButLine.symm) ?_
  rintro m _ _ ⟨line, rfl⟩ ⟨line', rfl⟩
  exact ⟨line', rfl⟩

end

theorem follows_execBlock {chain : Chain} {block : List Stmt}
    (h : Follows Flow.hoisted (execAll rules chain block)
      (execAll rules chain (hoistedAll block))) :
    Follows Flow.hoisted (execBlock rules chain block) (execBlock rules chain (hoistedAll block)) :=
  (follows_declare chain block).then fun _ _ _ => h

mutual

/-- **A statement does what its hoisted form does.** -/
theorem follows_exec (calls : rules.Transparent) (chain : Chain) : ∀ s : Stmt,
    Follows Flow.hoisted (s.exec rules chain) (s.hoisted.exec rules chain)
  | .expression line value => by
    unfold exec hoisted
    exact Tracks.atLine line <| (Expr.tracks_eval calls chain value).then fun _ _ same =>
      (tracks_keepValue same).then fun _ _ _ => mirrors_pure rfl
  | .assign line target op value => by
    unfold exec hoisted
    exact Tracks.atLine line <| (Expr.tracks_eval calls chain value).then fun _ _ same =>
      (Target.tracks_store calls chain op same target).then fun _ _ stored =>
      (tracks_keepValue stored).then fun _ _ _ => mirrors_pure rfl
  | .choose line branches otherwise => by
    unfold exec hoisted
    exact mirrors_atLine line (mirrors_execBranches calls chain
      (Mirrors.of_le (follows_execOtherwise calls chain otherwise) LikeAt.like) branches)
  | .loop line name items body => by
    unfold exec hoisted
    have step : ∀ v v' : Value, v.hoisted = v'.hoisted →
        Follows Flow.hoisted
          (do
            startStep rules.limits
            Machine.assign chain name v
            execBlock rules chain body)
          (do
            startStep rules.limits
            Machine.assign chain name v'
            execBlock rules chain (hoistedAll body)) := fun v v' same =>
      (follows_startStep rules.limits).then fun _ _ _ =>
        (mirrors_modify fun _ _ hm => hm.assign chain name same).then fun _ _ _ =>
        follows_execBlock (follows_execAll calls chain body)
    have goesOver : ∀ v v' : Value, v.hoisted = v'.hoisted →
        (Iteration.ofValue v).map Iteration.hoisted =
          (Iteration.ofValue v').map Iteration.hoisted := fun v v' same => by
      rw [← Iteration.ofValue_hoisted, same, Iteration.ofValue_hoisted]
    exact mirrors_atLine line <| (Expr.tracks_eval calls chain items).bind LikeAt.like
      fun v v' same => (Run.mirrors_ofExcept (goesOver v v' same)).bind LikeAt.like
        fun _ _ same => Mirrors.of_le (Iteration.mirrors_run step same) LikeAt.like
  | .function line name params body => by
    unfold exec hoisted
    exact Tracks.atLine line (mirrors_pure rfl)
  | .leave line value => by
    unfold exec hoisted
    cases value with
    | some e =>
      exact Tracks.atLine line <| (Expr.tracks_eval calls chain e).then fun _ _ same =>
        mirrors_pure (Flow.leave_same same)
    | none => exact Tracks.atLine line (mirrors_pure rfl)

theorem mirrors_execBranches (calls : rules.Transparent) (chain : Chain)
    {otherwise otherwise' : Run Flow} (h : Mirrors LikeAt Like Flow.hoisted otherwise otherwise') :
    ∀ branches : List (Expr × List Stmt),
      Mirrors LikeAt Like Flow.hoisted (execBranches rules chain otherwise branches)
        (execBranches rules chain otherwise' (hoistedBranches branches))
  | [] => by
    unfold execBranches hoistedBranches
    exact h
  | (condition, body) :: rest => by
    unfold execBranches hoistedBranches
    refine (Expr.tracks_eval calls chain condition).bind LikeAt.like fun v v' same => ?_
    rw [← v.truthy_hoisted, same, v'.truthy_hoisted]
    split
    · exact Mirrors.of_le (follows_execBlock (follows_execAll calls chain body)) LikeAt.like
    · exact mirrors_execBranches calls chain h rest

theorem follows_execOtherwise (calls : rules.Transparent) (chain : Chain) :
    ∀ otherwise : Option (List Stmt), Follows Flow.hoisted (execOtherwise rules chain otherwise)
      (execOtherwise rules chain (hoistedOtherwise otherwise))
  | none => by
    unfold execOtherwise hoistedOtherwise
    exact mirrors_pure rfl
  | some body => by
    unfold execOtherwise hoistedOtherwise
    exact follows_execBlock (follows_execAll calls chain body)

theorem follows_execAll (calls : rules.Transparent) (chain : Chain) : ∀ block : List Stmt,
    Follows Flow.hoisted (execAll rules chain block) (execAll rules chain (hoistedAll block))
  | [] => by
    unfold execAll hoistedAll
    exact mirrors_pure rfl
  | s :: rest => by
    have inOrder : Follows Flow.hoisted (execAll rules chain (s :: rest))
        (execAll rules chain (s.hoisted :: hoistedAll rest)) := by
      unfold execAll
      refine (follows_exec calls chain s).then fun flow flow' ends => ?_
      obtain ⟨rfl, rfl⟩ | ⟨value, value', rfl, rfl, -⟩ := Flow.alike_of_hoisted_eq ends
      · exact follows_execAll calls chain rest
      · exact mirrors_pure ends
    unfold hoistedAll
    intro m m' hm
    exact (inOrder hm).trans
      (mirrors_execAll_insertIn rules chain (hoistedAll rest) s.hoisted (.refl m')).of_id
      fun _ _ _ h h' => h.trans_sameButLine h'

end

/-- **Blocks that are the same when hoisted do the same.** -/
theorem follows_execBlock_of_same (calls : rules.Transparent) (chain : Chain)
    {block block' : List Stmt} (same : hoistedAll block = hoistedAll block') :
    Follows Flow.hoisted (execBlock rules chain block) (execBlock rules chain block') := by
  intro m m' hm
  have front := follows_execBlock (follows_execAll calls chain block) hm
  have back := follows_execBlock (follows_execAll calls chain block') (hm.symm.trans hm)
  rw [same] at front
  exact front.trans (back.symm fun _ _ => Like.symm) fun _ _ _ h h' => h.trans h'

end Stmt

end

/-! ## Calls and programs -/

/-- However many calls may still become active, calls do not tell where functions are declared. -/
theorem transparent_invokeAt (limits : Limits) (depth : Nat) :
    Rules.Transparent ⟨limits, invokeAt limits depth⟩ := by
  have arity : ∀ (name : String) (count : Nat) (args args' : List Value),
      args.map Value.hoisted = args'.map Value.hoisted →
      Tracks id (Run.ofExcept (checkArity name args count))
        (Run.ofExcept (checkArity name args' count)) := fun name count args args' same =>
    Run.mirrors_ofExcept (by rw [← checkArity_hoisted, same, checkArity_hoisted])
  induction depth with
  | zero =>
    intro f f' args args' alike same
    obtain ⟨-, decl, -⟩ := Closure.hoisted_eq_iff.1 alike
    obtain ⟨name, params, -⟩ := Function.hoisted_eq_iff.1 decl
    dsimp only
    unfold invokeAt
    rw [name, params]
    exact (arity _ _ _ _ same).then fun _ _ _ => mirrors_throw _
  | succ depth ih =>
    intro f f' args args' alike same
    obtain ⟨-, decl, scopes⟩ := Closure.hoisted_eq_iff.1 alike
    obtain ⟨name, params, body, -⟩ := Function.hoisted_eq_iff.1 decl
    dsimp only
    unfold invokeAt
    rw [name, params, scopes]
    have bindings : Entries.mapValues Value.hoisted (f'.decl.params.zip args) =
        Entries.mapValues Value.hoisted (f'.decl.params.zip args') := by
      have zip : ∀ values : List Value,
          f'.decl.params.zip (values.map Value.hoisted) =
            Entries.mapValues Value.hoisted (f'.decl.params.zip values) := fun _ =>
        List.zip_map_right
      rw [← zip, same, zip]
    refine (arity _ _ _ _ same).then fun _ _ _ =>
      (tracks_newScope bindings).then fun place place' at_place => ?_
    obtain rfl : place = place' := at_place
    have block := Stmt.follows_execBlock_of_same ih (place :: f'.scopes) body
    refine (tracks_inCall _ block).then fun flow flow' ends => ?_
    obtain ⟨rfl, rfl⟩ | ⟨value, value', rfl, rfl, alike⟩ := Flow.alike_of_hoisted_eq ends
    · exact mirrors_pure rfl
    · exact mirrors_pure alike

namespace Program

variable {p p' : Program} (same : Stmt.hoistedAll p.statements = Stmt.hoistedAll p'.statements)
  (limits : Limits)
include same

/-- Programs that are the same when hoisted do the same. -/
theorem follows_exec : Follows Value.hoisted (p.exec limits) (p'.exec limits) := by
  have calls : (Rules.ofLimits limits).Transparent := transparent_invokeAt limits _
  refine (Stmt.follows_execBlock_of_same calls topLevel same).then fun flow flow' ends => ?_
  obtain ⟨rfl, rfl⟩ | ⟨value, value', rfl, rfl, alike⟩ := Flow.alike_of_hoisted_eq ends
  · exact mirrors_get_bind fun m m' hm => .ok hm.lastValue hm
  · exact mirrors_pure alike

/-- A call of a function that the top level declares does the same. -/
theorem follows_execEvent {name : String} (declared : (p.function? name).isSome)
    (args : List Value) :
    Follows Value.hoisted (p.execEvent limits name args) (p'.execEvent limits name args) := by
  have calls : (Rules.ofLimits limits).Transparent := transparent_invokeAt limits _
  refine (follows_exec same limits).then fun _ _ _ =>
    (mirrors_lookup? (fun _ _ h => h) topLevel name).then fun callee callee' found => ?_
  obtain ⟨rfl, rfl⟩ | ⟨v, v', rfl, rfl, alike⟩ := option_alike found
  · exact mirrors_throw _
  have call : Tracks Value.hoisted ((Rules.ofLimits limits).callValue v args name)
      ((Rules.ofLimits limits).callValue v' args name) :=
    Rules.tracks_callValue calls rfl alike name
  dsimp only
  obtain ⟨none, -⟩ | ⟨f, f', first, first', alike⟩ := option_alike (function?_hoisted same name)
  · rw [none] at declared
    exact absurd declared Bool.false_ne_true
  · -- the script goes to the line of the declaration, which is the same in both
    obtain ⟨-, -, -, line⟩ := Function.hoisted_eq_iff.1 alike
    rw [first, first']
    dsimp only
    rw [line]
    exact Mirrors.bind (S := LikeAt) (mirrors_modify fun _ _ hm => ⟨hm.at_lines _ _, rfl⟩)
      LikeAt.like fun _ _ _ => call.mono LikeAt.like

end Program

/-! ## Results -/

/-- Two runs of an engine give the same and leave the same. Of a function in the value, the place of
declarations in its body does not count. -/
structure Engine.SameOutcome (ran ran' : Ran) : Prop where
  value : ran.1.value.hoisted = ran'.1.value.hoisted
  effects : ran.1.effects = ran'.1.effects
  failure : ran.1.failure = ran'.1.failure
  context : ran.2.1 = ran'.2.1
  engine : ran.2.2 = ran'.2.2

theorem Machine.Like.failureOf {m m' : Machine} (h : Like m m') (e : ScriptError) :
    m.failureOf e = m'.failureOf e := by
  rw [Machine.failureOf, Machine.failureOf, h.failure]

/-- Steps that go along with each other end alike. -/
theorem Engine.sameOutcome_inWorld {act act' : Run Value} (h : Follows Value.hoisted act act')
    (e : Engine) {c : Context} (discreet : c.Discreet) :
    SameOutcome (e.inWorld c (Run.start act)) (e.inWorld c (Run.start act')) := by
  have start : Like { world := ⟨c, e.subscriptions⟩ } { world := ⟨c, e.subscriptions⟩ } :=
    ⟨⟨rfl, discreet⟩, rfl, rfl, rfl, rfl, rfl, rfl⟩
  have ends := h start
  unfold inWorld Run.start
  generalize act { world := ⟨c, e.subscriptions⟩ } = r,
    act' { world := ⟨c, e.subscriptions⟩ } = r' at ends
  cases ends with
  | ok same next =>
    obtain ⟨world, -⟩ := next.world
    unfold Machine.finish
    dsimp only
    rw [world]
    exact ⟨same, rfl, rfl, rfl, rfl⟩
  | error next =>
    obtain ⟨world, -⟩ := next.world
    unfold Machine.finish
    dsimp only
    rw [world, next.failureOf]
    exact ⟨rfl, rfl, rfl, rfl, rfl⟩

/-- **It does not matter where in its block a function is declared.** With declarations moved, an
engine gives the same for a run and for an event, and is left the same; so is the context, whatever
it lends. The body of a function is its own, so that what the host lends cannot look into it. -/
theorem Engine.run_moved {p p' : Program} (moved : Stmt.Moved p.statements p'.statements)
    (e : Engine) {c : Context} (discreet : c.Discreet) :
    SameOutcome (e.run p c) (e.run p' c) ∧
    ∀ event args, SameOutcome (e.handle p event args c) (e.handle p' event args c) := by
  have same := moved.hoistedAll_eq
  refine ⟨sameOutcome_inWorld (Program.follows_exec same _) e discreet, fun event args => ?_⟩
  unfold handle
  obtain ⟨none, none'⟩ | ⟨f, f', first, first', alike⟩ :=
    option_alike (Program.function?_hoisted same event)
  · rw [none, none']
    exact ⟨rfl, rfl, rfl, rfl, rfl⟩
  · obtain ⟨-, params, -⟩ := Function.hoisted_eq_iff.1 alike
    rw [first, first']
    dsimp only
    rw [params]
    have declared : (p.function? event).isSome := first ▸ rfl
    exact sameOutcome_inWorld (Program.follows_execEvent same _ declared _) e discreet

/-- A program whose event calls a function that a branch declares, and which is declared after
that. -/
def declaringLate : Program where
  statements :=
    [.choose 1 [(.bool true, [.function 2 "g" [] [.expression 3 (.variable "missing")]])] none,
      .function 4 "f" [] [.leave 5 (some (.call (.variable "g") []))]]

/-- The same program with the declaration of the top level in front. -/
def declaringEarly : Program where
  statements :=
    [.function 4 "f" [] [.leave 5 (some (.call (.variable "g") []))],
      .choose 1 [(.bool true, [.function 2 "g" [] [.expression 3 (.variable "missing")]])] none]

theorem declaringLate_moved : Stmt.Moved declaringLate.statements declaringEarly.statements :=
  Stmt.moved_swap (by decide) []

theorem Context.discreet_default : Context.Discreet {} := ⟨nofun, nofun⟩

/-- The event fails inside both calls, and the trace is the same in both programs. -/
theorem declaringLate_run_moved :
    Stmt.Moved declaringLate.statements declaringEarly.statements ∧ Context.Discreet {} ∧
    Engine.SameOutcome ((Engine.new {}).run declaringLate {})
      ((Engine.new {}).run declaringEarly {}) ∧
    Engine.SameOutcome ((Engine.new {}).handle declaringLate "f" [.null] {})
      ((Engine.new {}).handle declaringEarly "f" [.null] {}) ∧
    ((Engine.new {}).handle declaringLate "f" [.null] {}).1.failure =
      some ⟨.undefinedVariable "missing", some 3,
        ["at g (line 3)", "at f (line 5)", "at <script> (line 4)"]⟩ := by
  obtain ⟨run, events⟩ := Engine.run_moved declaringLate_moved (.new {})
    Context.discreet_default
  exact ⟨declaringLate_moved, Context.discreet_default, run, events "f" [.null], by decide +kernel⟩

end SheetScript
