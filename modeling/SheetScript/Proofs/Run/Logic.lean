import SheetScript.Proofs.Value.References
import SheetScript.Run.Result

/-!
# Two runs side by side

A run is put together from few kinds of steps: it looks up and assigns names, makes scopes, enters
and leaves statements and calls, and goes through the doors to its world. A `RunLogic` compares two
runs by comparing these steps. What its laws ask of each kind of step then holds of whatever is put
together from them, so of every program.

* `RunLogic.Matches` is the comparison; it also says what is known of the value that the steps give.
  Values hold only objects of the kind of the logic (`RunLogic.Fits`).
* `RunLogic.eval` and `RunLogic.exec` go by recursion on the tree, `RunLogic.callsAt` on the calls
  left.
* `RunLogic.program` and `RunLogic.event` are the statements about a whole run.
-/

namespace SheetScript

/-- A comparison of two runs, with the budgets of the one and of the other, that every kind of step
respects. -/
structure RunLogic (limits limits' : Limits) where
  /-- The objects that the values of a run hold. -/
  kind : ObjectRef → Prop
  /-- Two steps belong together, and what they give has a property. -/
  Matches : {α : Type} → (α → Prop) → Run α → Run α → Prop
  give : ∀ {α : Type} {G : α → Prop} {a : α}, G a → Matches G (pure a) (pure a)
  fail : ∀ {α : Type} {G : α → Prop} (e : ScriptError), Matches G (throw e) (throw e)
  bind : ∀ {α β : Type} {G : α → Prop} {H : β → Prop} {act act' : Run α} {f f' : α → Run β},
    Matches G act act' → (∀ a, G a → Matches H (f a) (f' a)) → Matches H (act >>= f) (act' >>= f')
  atLine : ∀ {α : Type} {G : α → Prop} {act act' : Run α} (line : Nat), Matches G act act' →
    Matches G (Machine.atLine line act) (Machine.atLine line act')
  inCall : ∀ {α : Type} {G : α → Prop} {act act' : Run α} (name : String), Matches G act act' →
    Matches G (Machine.inCall name act) (Machine.inCall name act')
  lookup? : ∀ (chain : Chain) (name : String), Matches (fun found => ∀ v ∈ found, v.HoldsOnly kind)
    (Machine.lookup? chain name) (Machine.lookup? chain name)
  assign : ∀ (chain : Chain) (name : String) {v : Value}, v.HoldsOnly kind →
    Matches (fun _ => True) (Machine.assign chain name v) (Machine.assign chain name v)
  newScope : ∀ {bindings : List (String × Value)}, (∀ b ∈ bindings, b.2.HoldsOnly kind) →
    Matches (fun _ => True) (Machine.newScope bindings) (Machine.newScope bindings)
  declare : ∀ (chain : Chain) (functions : List Function),
    Matches (fun _ => True) (Machine.declare chain functions) (Machine.declare chain functions)
  startStep : Matches (fun _ => True) (Machine.startStep limits) (Machine.startStep limits')
  keepValue : ∀ {v : Value}, v.HoldsOnly kind →
    Matches (fun _ => True) (Machine.keepValue v) (Machine.keepValue v)
  lastValue : Matches (Value.HoldsOnly kind) (do return (← get).lastValue)
    (do return (← get).lastValue)
  setLine : ∀ line : Nat, Matches (fun _ => True) (modify fun m => { m with line := line })
    (modify fun m => { m with line := line })
  valueOf : ∀ (chain : Chain) (name : String),
    Matches (Value.HoldsOnly kind) (Expr.valueOf chain name) (Expr.valueOf chain name)
  checkFree : ∀ name : String,
    Matches (fun _ => True) (Target.checkFree name) (Target.checkFree name)
  builtin : ∀ (b : Builtin) {args : List Value}, (∀ v ∈ args, v.HoldsOnly kind) →
    Matches (Value.HoldsOnly kind) (Machine.onWorld (b.call limits.consoleLog args))
      (Machine.onWorld (b.call limits'.consoleLog args))
  native : ∀ (f : NativeRef) {args : List Value} (description : String) (invoke invoke' : Invoke),
    (∀ v ∈ args, v.HoldsOnly kind) → Matches (Value.HoldsOnly kind)
      (Rules.callValue ⟨limits, invoke⟩ (.native f) args description)
      (Rules.callValue ⟨limits', invoke'⟩ (.native f) args description)
  method : ∀ {receiver : Value} (name : String) {args : List Value}, receiver.HoldsOnly kind →
    (∀ v ∈ args, v.HoldsOnly kind) → Matches (Value.HoldsOnly kind)
      (Machine.onWorld (World.onContext (receiver.callMethod name args)))
      (Machine.onWorld (World.onContext (receiver.callMethod name args)))
  property : ∀ {receiver : Value} (name : String), receiver.HoldsOnly kind →
    Matches (Value.HoldsOnly kind) (do Run.ofExcept (receiver.property (← get).world.context name))
      (do Run.ofExcept (receiver.property (← get).world.context name))

namespace RunLogic

variable {limits limits' : Limits} (L : RunLogic limits limits')

/-- The objects in a value are of the kind of the logic. -/
def Fits (v : Value) : Prop := v.HoldsOnly L.kind

/-- The values of a list fit. -/
def AllFit (values : List Value) : Prop := ∀ v ∈ values, L.Fits v

/-- The value with which a call ends fits. -/
def FlowFits : Flow → Prop
  | .next => True
  | .leave v => L.Fits v

/-- Calls of declared functions match when the arguments fit. -/
def Calls (invoke invoke' : Invoke) : Prop :=
  ∀ f args, L.AllFit args → L.Matches L.Fits (invoke f args) (invoke' f args)

variable {L} {invoke invoke' : Invoke}

theorem allFit_nil : L.AllFit [] := fun _ mem => absurd mem List.not_mem_nil

theorem AllFit.cons {v : Value} {values : List Value} (hv : L.Fits v) (h : L.AllFit values) :
    L.AllFit (v :: values) := List.forall_mem_cons.2 ⟨hv, h⟩

theorem fits_of_nil {v : Value} (h : v.objects = []) : L.Fits v := Value.holdsOnly_of_nil h

variable (L)

theorem ofExcept {α : Type} {G : α → Prop} {result : Except ScriptError α}
    (h : ∀ a, result = .ok a → G a) : L.Matches G (Run.ofExcept result) (Run.ofExcept result) := by
  cases result with
  | ok a => exact L.give (h a rfl)
  | error e => exact L.fail e

/-! ## Calls of values -/

theorem callValue (calls : L.Calls invoke invoke') (callee : Value) {args : List Value}
    (fit : L.AllFit args) (description : String) :
    L.Matches L.Fits (Rules.callValue ⟨limits, invoke⟩ callee args description)
      (Rules.callValue ⟨limits', invoke'⟩ callee args description) := by
  cases callee with
  | function f => exact calls f args fit
  | builtin b => exact L.builtin b fit
  | native f => exact L.native f description invoke invoke' fit
  | _ => exact L.fail _

theorem callMethod (calls : L.Calls invoke invoke') {receiver : Value} (fits : L.Fits receiver)
    (name : String) {args : List Value} (fit : L.AllFit args) :
    L.Matches L.Fits (Rules.callMethod ⟨limits, invoke⟩ receiver name args)
      (Rules.callMethod ⟨limits', invoke'⟩ receiver name args) := by
  have method := L.method name fits fit
  unfold Rules.callMethod
  cases receiver with
  | map entries =>
    dsimp only
    cases Entries.find? entries name with
    | some f => exact L.callValue calls f fit name
    | none => exact method
  | _ => exact method

/-! ## Expressions -/

mutual

theorem eval (calls : L.Calls invoke invoke') (chain : Chain) : ∀ e : Expr,
    L.Matches L.Fits (e.eval ⟨limits, invoke⟩ chain) (e.eval ⟨limits', invoke'⟩ chain)
  | .number _ => L.give (fits_of_nil rfl)
  | .string _ => L.give (fits_of_nil rfl)
  | .bool _ => L.give (fits_of_nil rfl)
  | .null => L.give (fits_of_nil rfl)
  | .variable name => L.valueOf chain name
  | .binary op left right => by
    unfold Expr.eval
    exact L.bind (eval calls chain left) fun a ha => L.bind (eval calls chain right) fun b hb =>
      L.ofExcept fun v h => op.holdsOnly_apply ha hb h
  | .logical op left right => by
    unfold Expr.eval
    refine L.bind (eval calls chain left) fun a ha => ?_
    split
    · exact L.give ha
    · exact eval calls chain right
  | .unary op operand => by
    unfold Expr.eval
    exact L.bind (eval calls chain operand) fun a _ => L.ofExcept fun v h => op.holdsOnly_apply h
  | .call callee args => by
    -- a call of a property is a call of a method
    have method : ∀ object name, callee = .property object name →
        L.Matches L.Fits ((Expr.call callee args).eval ⟨limits, invoke⟩ chain)
          ((Expr.call callee args).eval ⟨limits', invoke'⟩ chain) := by
      rintro object name rfl
      unfold Expr.eval
      exact L.bind (eval calls chain object) fun receiver fits =>
        L.bind (evalAll calls chain args) fun values fit => L.callMethod calls fits name fit
    cases callee with
    | property object name => exact method object name rfl
    | _ =>
      unfold Expr.eval
      exact L.bind (eval calls chain _) fun f _ =>
        L.bind (evalAll calls chain args) fun values fit => L.callValue calls f fit _
  | .property object name => by
    unfold Expr.eval
    exact L.bind (eval calls chain object) fun receiver fits => L.property name fits
  | .index object position => by
    unfold Expr.eval
    exact L.bind (eval calls chain object) fun container fits =>
      L.bind (eval calls chain position) fun place _ =>
        L.ofExcept fun v h => Value.holdsOnly_get fits h
  | .array items => by
    unfold Expr.eval
    exact L.bind (evalAll calls chain items) fun values fit =>
      L.give (Value.holdsOnly_array.2 fit)
  | .map entries => by
    unfold Expr.eval
    exact L.bind (evalEntries calls chain entries) fun pairs fit =>
      L.give (Value.holdsOnly_map.2 (Value.holdsOnly_ofList fit))

theorem evalAll (calls : L.Calls invoke invoke') (chain : Chain) : ∀ es : List Expr,
    L.Matches L.AllFit (Expr.evalAll ⟨limits, invoke⟩ chain es)
      (Expr.evalAll ⟨limits', invoke'⟩ chain es)
  | [] => L.give allFit_nil
  | e :: rest => by
    unfold Expr.evalAll
    exact L.bind (eval calls chain e) fun value fits =>
      L.bind (evalAll calls chain rest) fun values fit => L.give (fit.cons fits)

theorem evalEntries (calls : L.Calls invoke invoke') (chain : Chain) :
    ∀ es : List (String × Expr), L.Matches (fun pairs => ∀ pair ∈ pairs, L.Fits pair.2)
      (Expr.evalEntries ⟨limits, invoke⟩ chain es) (Expr.evalEntries ⟨limits', invoke'⟩ chain es)
  | [] => L.give fun _ mem => absurd mem List.not_mem_nil
  | (key, e) :: rest => by
    unfold Expr.evalEntries
    exact L.bind (eval calls chain e) fun value fits =>
      L.bind (evalEntries calls chain rest) fun values fit =>
        L.give (List.forall_mem_cons.2 ⟨fits, fit⟩)

end

/-! ## Assignments -/

/-- What is stored at a position of a container fits. -/
theorem combine {op : Option Operator} {container position value : Value}
    (fits : L.Fits container) (hv : L.Fits value) :
    L.Matches L.Fits (Run.ofExcept (Target.combine op (container.get position) value))
      (Run.ofExcept (Target.combine op (container.get position) value)) :=
  L.ofExcept fun _ h => Target.holdsOnly_combine (fun _ got => Value.holdsOnly_get fits got) hv h

theorem put {container position value : Value} (fits : L.Fits container) (hv : L.Fits value) :
    L.Matches L.Fits (Run.ofExcept (container.put position value))
      (Run.ofExcept (container.put position value)) :=
  L.ofExcept fun _ h => Value.holdsOnly_put fits hv h

theorem storeAt (calls : L.Calls invoke invoke') (chain : Chain) :
    ∀ (e : Expr) (op : Option Operator) (position : Value) {value : Value}, L.Fits value →
      L.Matches L.Fits (Target.storeAt ⟨limits, invoke⟩ chain op position value e)
        (Target.storeAt ⟨limits', invoke'⟩ chain op position value e)
  | .variable name, _, _, _, hv =>
    L.bind (L.valueOf chain name) fun _ fits =>
      L.bind (L.combine fits hv) fun _ hv => L.bind (L.put fits hv) fun _ fits =>
      L.bind (L.checkFree name) fun _ _ =>
      L.bind (L.assign chain name fits) fun _ _ => L.give hv
  | .index object outer, _, _, _, hv =>
    L.bind (L.eval calls chain _) fun _ fits =>
      L.bind (L.combine fits hv) fun _ hv => L.bind (L.put fits hv) fun _ fits =>
      L.bind (L.eval calls chain outer) fun place _ =>
      L.bind (storeAt calls chain object none place fits) fun _ _ => L.give hv
  -- nothing else can be assigned to
  | .number _, _, _, _, hv | .string _, _, _, _, hv | .bool _, _, _, _, hv | .null, _, _, _, hv
  | .binary .., _, _, _, hv | .logical .., _, _, _, hv | .unary .., _, _, _, hv
  | .call .., _, _, _, hv | .property .., _, _, _, hv | .array _, _, _, _, hv
  | .map _, _, _, _, hv =>
    L.bind (L.eval calls chain _) fun _ fits =>
      L.bind (L.combine fits hv) fun _ hv => L.bind (L.put fits hv) fun _ _ => L.fail _

theorem store (calls : L.Calls invoke invoke') (chain : Chain) (op : Option Operator)
    {value : Value} (hv : L.Fits value) (target : Target) :
    L.Matches L.Fits (target.store ⟨limits, invoke⟩ chain op value)
      (target.store ⟨limits', invoke'⟩ chain op value) := by
  rcases target with name | ⟨object, position⟩
  · refine L.bind (L.checkFree name) fun _ _ => L.bind (L.lookup? chain name) fun old? fits => ?_
    refine L.bind (L.ofExcept fun _ h => Target.holdsOnly_combine (fun w found => ?_) hv h)
      fun value hv => L.bind (L.assign chain name hv) fun _ _ => L.give hv
    cases old? with
    | none => simp at found
    | some old => exact Except.ok.inj found ▸ fits old rfl
  · exact L.bind (L.eval calls chain position) fun place _ =>
      L.storeAt calls chain object op place hv

/-! ## Loops -/

variable {step step' : Value → Run Flow}

theorem forEach (h : ∀ v, L.Fits v → L.Matches L.FlowFits (step v) (step' v)) {values : List Value}
    (fit : L.AllFit values) :
    L.Matches L.FlowFits (Iteration.forEach step values) (Iteration.forEach step' values) := by
  induction values with
  | nil => exact L.give trivial
  | cons v rest ih =>
    obtain ⟨fits, fit⟩ := List.forall_mem_cons.1 fit
    refine L.bind (h v fits) fun flow leaves => ?_
    cases flow with
    | next => exact ih fit
    | leave value => exact L.give leaves

theorem forCount (h : ∀ v, L.Fits v → L.Matches L.FlowFits (step v) (step' v)) (start count : Nat) :
    L.Matches L.FlowFits (Iteration.forCount step start count)
      (Iteration.forCount step' start count) := by
  induction count generalizing start with
  | zero => exact L.give trivial
  | succ count ih =>
    refine L.bind (h _ (fits_of_nil rfl)) fun flow leaves => ?_
    cases flow with
    | next => exact ih (start + 1)
    | leave value => exact L.give leaves

theorem iteration (h : ∀ v, L.Fits v → L.Matches L.FlowFits (step v) (step' v))
    {iteration : Iteration} (fit : iteration.HoldsOnly L.kind) :
    L.Matches L.FlowFits (iteration.run step) (iteration.run step') := by
  cases iteration with
  | items values => exact L.forEach h fit
  | upTo count => exact L.forCount h 0 count

/-! ## Statements -/

mutual

theorem exec (calls : L.Calls invoke invoke') (chain : Chain) : ∀ stmt : Stmt,
    L.Matches L.FlowFits (stmt.exec ⟨limits, invoke⟩ chain) (stmt.exec ⟨limits', invoke'⟩ chain)
  | .expression line value => by
    unfold Stmt.exec
    exact L.atLine line <| L.bind (L.eval calls chain value) fun v fits =>
      L.bind (L.keepValue fits) fun _ _ => L.give trivial
  | .assign line target op value => by
    unfold Stmt.exec
    exact L.atLine line <| L.bind (L.eval calls chain value) fun v fits =>
      L.bind (L.store calls chain op fits target) fun v fits =>
      L.bind (L.keepValue fits) fun _ _ => L.give trivial
  | .choose line branches otherwise => by
    unfold Stmt.exec
    exact L.atLine line
      (execBranches calls chain (execOtherwise calls chain otherwise) branches)
  | .loop line name items body => by
    unfold Stmt.exec
    refine L.atLine line <| L.bind (L.eval calls chain items) fun v fits =>
      L.bind (L.ofExcept fun _ h => Iteration.holdsOnly_ofValue fits h) fun _ fit =>
      L.iteration (fun item fits => ?_) fit
    exact L.bind L.startStep fun _ _ => L.bind (L.assign chain name fits) fun _ _ =>
      L.bind (L.declare chain _) fun _ _ => execAll calls chain body
  | .function line _ _ _ => by
    unfold Stmt.exec
    exact L.atLine line (L.give trivial)
  | .leave line value => by
    unfold Stmt.exec
    refine L.atLine line ?_
    cases value with
    | some e => exact L.bind (L.eval calls chain e) fun v fits => L.give fits
    | none => exact L.give (fits_of_nil rfl)

theorem execBranches (calls : L.Calls invoke invoke') (chain : Chain) {otherwise otherwise' : Run Flow}
    (h : L.Matches L.FlowFits otherwise otherwise') : ∀ branches : List (Expr × List Stmt),
      L.Matches L.FlowFits (Stmt.execBranches ⟨limits, invoke⟩ chain otherwise branches)
        (Stmt.execBranches ⟨limits', invoke'⟩ chain otherwise' branches)
  | [] => by
    unfold Stmt.execBranches
    exact h
  | (condition, body) :: rest => by
    unfold Stmt.execBranches
    refine L.bind (L.eval calls chain condition) fun v _ => ?_
    split
    · exact L.bind (L.declare chain _) fun _ _ => execAll calls chain body
    · exact execBranches calls chain h rest

theorem execOtherwise (calls : L.Calls invoke invoke') (chain : Chain) :
    ∀ otherwise : Option (List Stmt),
      L.Matches L.FlowFits (Stmt.execOtherwise ⟨limits, invoke⟩ chain otherwise)
        (Stmt.execOtherwise ⟨limits', invoke'⟩ chain otherwise)
  | none => by
    unfold Stmt.execOtherwise
    exact L.give trivial
  | some body => by
    unfold Stmt.execOtherwise
    exact L.bind (L.declare chain _) fun _ _ => execAll calls chain body

theorem execAll (calls : L.Calls invoke invoke') (chain : Chain) : ∀ block : List Stmt,
    L.Matches L.FlowFits (Stmt.execAll ⟨limits, invoke⟩ chain block)
      (Stmt.execAll ⟨limits', invoke'⟩ chain block)
  | [] => by
    unfold Stmt.execAll
    exact L.give trivial
  | stmt :: rest => by
    unfold Stmt.execAll
    refine L.bind (exec calls chain stmt) fun flow leaves => ?_
    cases flow with
    | leave value => exact L.give leaves
    | next => exact execAll calls chain rest

end

theorem execBlock (calls : L.Calls invoke invoke') (chain : Chain) (block : List Stmt) :
    L.Matches L.FlowFits (Stmt.execBlock ⟨limits, invoke⟩ chain block)
      (Stmt.execBlock ⟨limits', invoke'⟩ chain block) :=
  L.bind (L.declare chain _) fun _ _ => L.execAll calls chain block

/-! ## Calls and programs -/

/-- One level of calls more. -/
theorem calls_succ {depth depth' : Nat}
    (calls : L.Calls (invokeAt limits depth) (invokeAt limits' depth')) :
    L.Calls (invokeAt limits (depth + 1)) (invokeAt limits' (depth' + 1)) := by
  intro f args fit
  have bindings : ∀ b ∈ f.decl.params.zip args, b.2.HoldsOnly L.kind :=
    fun b mem => fit _ (List.of_mem_zip mem).2
  refine L.bind (L.ofExcept (G := fun _ => True) fun _ _ => trivial) fun _ _ =>
    L.bind (L.newScope bindings) fun place _ =>
    L.bind (L.inCall _ (L.execBlock calls _ _)) fun flow leaves => ?_
  cases flow with
  | leave value => exact L.give leaves
  | next => exact L.give (fits_of_nil rfl)

/-- Calls match when no more are allowed on either side, with one budget. -/
theorem calls_zero (same : limits.maxCallDepth = limits'.maxCallDepth) :
    L.Calls (invokeAt limits 0) (invokeAt limits' 0) := fun f args _ => by
  unfold invokeAt
  rw [same]
  exact L.bind (L.ofExcept (G := fun _ => True) fun _ _ => trivial) fun _ _ => L.fail _

theorem callsAt (same : limits.maxCallDepth = limits'.maxCallDepth) (depth : Nat) :
    L.Calls (invokeAt limits depth) (invokeAt limits' depth) := by
  induction depth with
  | zero => exact L.calls_zero same
  | succ depth ih => exact L.calls_succ ih

/-- **A program matches itself** when the calls of its functions do. -/
theorem program
    (calls : L.Calls (invokeAt limits limits.maxCallDepth)
      (invokeAt limits' limits'.maxCallDepth)) (p : Program) :
    L.Matches L.Fits (p.exec limits) (p.exec limits') := by
  refine L.bind (L.execBlock calls Program.topLevel p.statements) fun flow leaves => ?_
  cases flow with
  | leave value => exact L.give leaves
  | next => exact L.lastValue

/-- **An event matches itself** when the calls of the program's functions do. -/
theorem event
    (calls : L.Calls (invokeAt limits limits.maxCallDepth)
      (invokeAt limits' limits'.maxCallDepth)) (p : Program) (name : String)
    {args : List Value} (fit : L.AllFit args) :
    L.Matches L.Fits (p.execEvent limits name args) (p.execEvent limits' name args) := by
  refine L.bind (L.program calls p) fun _ _ =>
    L.bind (L.lookup? Program.topLevel name) fun found _ => ?_
  cases found with
  | none => exact L.fail _
  | some callee =>
    dsimp only
    cases p.function? name with
    | none => exact L.callValue calls callee fit name
    | some f => exact L.bind (L.setLine f.line) fun _ _ => L.callValue calls callee fit name

end RunLogic

end SheetScript
