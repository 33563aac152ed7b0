import SheetScript.Proofs.Engine.Isolation
import SheetScript.Proofs.Run.Deeds

/-!
# The handler of an event

The engine fits the arguments of an event to the first function of that name that the top level
declares. What it calls is what the name is bound to once the top level has run. If nothing but
those declarations binds the name, that is the last one of them. So the call takes the arguments if
and only if the first and the last one have equally many parameters.

* `Engine.getElem?_fitArgs`: missing arguments are null, and extra ones are dropped.
* `Program.DeclaresOnly` says that nothing but declarations of the top level binds a name.
* `Program.lookup?_of_exec`: then the name is bound to the last one after the top level.
* `Engine.runEvent_handler` is the statement about an event.
-/

namespace SheetScript

open Act

/-! ## Fitting arguments -/

namespace Engine

@[simp] theorem length_fitArgs (count : Nat) (args : List Value) :
    (fitArgs count args).length = count := by
  rw [fitArgs, List.length_append, List.length_take, List.length_replicate]
  omega

/-- Missing arguments are null, and extra ones are dropped. -/
theorem getElem?_fitArgs {count i : Nat} (args : List Value) (inside : i < count) :
    (fitArgs count args)[i]? = some (args[i]?.getD .null) := by
  rw [fitArgs]
  by_cases given : i < args.length
  · have taken : i < (args.take count).length := by
      rw [List.length_take]
      omega
    rw [List.getElem?_append_left taken, List.getElem?_take_of_lt inside,
      List.getElem?_eq_getElem given, Option.getD_some]
  · have missing : (args.take count).length ≤ i := by
      rw [List.length_take]
      omega
    rw [List.getElem?_append_right missing, List.getElem?_replicate, List.length_take,
      if_pos (by omega), List.getElem?_eq_none (not_lt.1 given), Option.getD_none]

end Engine

/-! ## The functions of a name -/

namespace Program

variable {p : Program} {name : String} {first last : Function}

/-- The last function of that name that the top level declares. -/
def lastFunction? (p : Program) (name : String) : Option Function :=
  (Stmt.functions p.statements).reverse.find? (·.name == name)

theorem function?_eq (p : Program) (name : String) :
    p.function? name = (Stmt.functions p.statements).find? (·.name == name) := by
  rw [function?, Stmt.functions]
  induction p.statements with
  | nil => rfl
  | cons stmt rest ih =>
    rw [List.findSome?_cons, List.filterMap_cons, ih]
    cases stmt.function? with
    | none => rfl
    | some f =>
      rw [Option.filter_some, List.find?_cons]
      cases f.name == name <;> rfl

/-- If there is a first function of a name, there is a last one. -/
theorem exists_lastFunction? (found : p.function? name = some first) :
    ∃ last, p.lastFunction? name = some last := by
  rw [function?_eq] at found
  obtain ⟨named, -⟩ := List.find?_eq_some_iff_append.1 found
  exact Option.isSome_iff_exists.1 (List.find?_isSome.2
    ⟨first, List.mem_reverse.2 (List.mem_of_find?_eq_some found), named⟩)

/-- Behind the last function of a name, none has that name. -/
theorem split_of_lastFunction? (found : p.lastFunction? name = some last) :
    last.name = name ∧ ∃ front back, Stmt.functions p.statements = front ++ last :: back ∧
      ∀ g ∈ back, g.name ≠ name := by
  obtain ⟨named, front, back, split, others⟩ := List.split_of_find?_reverse found
  exact ⟨eq_of_beq named, front, back, split, fun g mem same => others g mem (beq_iff_eq.2 same)⟩

/-- Nothing in a program binds a name but functions of that name that its top level declares. -/
def DeclaresOnly (p : Program) (name : String) : Prop :=
  ∀ stmt ∈ p.statements, stmt.BindsOnly (· ≠ name) ∨
    ∃ f, stmt.function? = some f ∧ f.BindsOnly (· ≠ name)

theorem DeclaresOnly.bindsOnly (only : p.DeclaresOnly name) {f : Function}
    (mem : f ∈ Stmt.functions p.statements) : f.BindsOnly (· ≠ name) := by
  obtain ⟨stmt, mem, declares⟩ := List.mem_filterMap.1 mem
  rcases only stmt mem with other | ⟨g, declares', bindsOnly⟩
  · have alone : Stmt.BlockBindsOnly (· ≠ name) [stmt] :=
      Stmt.blockBindsOnly_iff.2 (List.forall_mem_singleton.2 other)
    exact (Stmt.bindsOnly_of_mem_functions alone
      (List.mem_filterMap.2 ⟨stmt, List.mem_singleton_self stmt, declares⟩)).2
  · obtain rfl := Option.some.inj (declares.symm.trans declares')
    exact bindsOnly

/-! ## The top level -/

/-- What is asked of the statements of a top level that declares a name only is so. -/
theorem DeclaresOnly.meets_planAll (only : p.DeclaresOnly name) (limits : Limits) :
    (Stmt.planAll limits topLevel p.statements).Meets (· ≠ name) topLevel
      (Flow.BindsOnly (· ≠ name)) := by
  have each : ∀ stmt ∈ p.statements,
      (stmt.plan limits topLevel).Meets (· ≠ name) topLevel (Flow.BindsOnly (· ≠ name)) := by
    intro stmt mem
    rcases only stmt mem with other | ⟨f, declares, -⟩
    · exact Stmt.meets_plan limits topLevel other
    · cases stmt with
      | function line name params body =>
        -- its functions have been declared when the block was entered
        rw [Stmt.plan]
        exact Plan.meets_pure trivial
      | _ => cases declares
  generalize p.statements = block at each
  induction block with
  | nil =>
    rw [Stmt.planAll]
    exact Plan.meets_pure trivial
  | cons stmt rest ih =>
    obtain ⟨here, later⟩ := List.forall_mem_cons.1 each
    rw [Stmt.planAll]
    refine here.mono fun flow leaves => ?_
    cases flow with
    | next => exact ih later
    | leave v => exact Plan.meets_pure leaves

/-- **What the name of a handler is bound to after the top level has run**: the last function of
that name. -/
theorem lookup?_of_exec (only : p.DeclaresOnly name) {limits : Limits} {world : World}
    (lends : world.context.LendsOnly (Value.BindsOnly (· ≠ name)))
    (found : p.lastFunction? name = some last) {value : Value} {m : Machine}
    (run : p.exec limits { world := world } = .ok value m) :
    m.scopes.lookup? topLevel name = some (.function ⟨0, last, topLevel⟩) := by
  obtain ⟨rfl, front, back, split, behind⟩ := split_of_lastFunction? found
  obtain ⟨flow, m₁, block, rest⟩ := exists_of_bind_eq_ok run
  obtain rfl : m₁ = m := by
    cases flow with
    | next => exact (EStateM.Result.ok.inj rest).2
    | leave v => exact (EStateM.Result.ok.inj rest).2
  obtain ⟨_, declared, declares, statements⟩ := exists_of_bind_eq_ok block
  have left_eq : (Machine.declare topLevel (Stmt.functions p.statements)).left { world := world } =
      declared := by rw [left, declares]
  have scopes : declared.scopes =
      Scopes.declare #[[]] 0 topLevel (Stmt.functions p.statements) := by
    rw [← left_eq, Machine.scopes_declare]
  have world_eq : declared.world = world := by
    rw [← left_eq, Machine.declare]
    split <;> rfl
  have start : declared.BindsOnly (· ≠ last.name) :=
    ⟨scopes ▸ Scopes.All.start.declare fun f mem => only.bindsOnly mem, world_eq ▸ lends⟩
  obtain ⟨log, trail, fair⟩ := Plan.exists_trail limits limits.maxCallDepth
    (only.meets_planAll limits) start
  have final : ((Stmt.planAll limits topLevel p.statements).perform (Rules.ofLimits limits)).left
      declared = m₁ := by
    have performed : (Stmt.planAll limits topLevel p.statements).perform (Rules.ofLimits limits) =
        _ := Stmt.perform_planAll (Rules.ofLimits limits) topLevel p.statements
    rw [performed, left, statements]
  change Deed.Trail declared log (left (Plan.perform (Rules.ofLimits limits) _) declared) at trail
  rw [final] at trail
  have one : declared.scopes.size = 1 := by
    rw [scopes, Scopes.size_declare]
    rfl
  have bound : declared.scopes.binding? 0 last.name = some (.function ⟨0, last, topLevel⟩) := by
    rw [scopes, split]
    exact Scopes.binding?_declare Nat.one_pos behind
  refine Scopes.lookup?_of_head ((trail.binding?_eq_of_not fair ?_ (by omega)).trans bound)
  exact not_not_intro rfl

/-- An event calls what its name is bound to after the top level has run. -/
theorem execEvent_eq_invokeAt {limits : Limits} {start m : Machine} {value : Value}
    (found : p.function? name = some first) (run : p.exec limits start = .ok value m) {f : Closure}
    (bound : m.scopes.lookup? topLevel name = some (.function f)) (args : List Value) :
    p.execEvent limits name args start =
      invokeAt limits limits.maxCallDepth f args { m with line := first.line } := by
  have looked : Machine.lookup? topLevel name m = .ok (some (.function f)) m :=
    congrArg (EStateM.Result.ok · m) bound
  rw [execEvent, bind_ok run, bind_ok looked, found]
  rfl

end Program

/-! ## The event -/

/-- What a context lends does not depend on the script that it is for. -/
theorem Context.LendsOnly.orScript {P : Value → Prop} {c : Context} (h : c.LendsOnly P)
    (id : String) : (c.orScript id).LendsOnly P := by
  unfold Context.orScript
  split
  · exact h
  · exact ⟨h.globals, h.natives, h.objects, h.properties⟩

/-- A function takes as many arguments as it has parameters. -/
theorem Closure.arity_eq (f : Closure) (args : List Value) :
    f.arity args =
      if args.length = f.decl.params.length then .ok ()
      else .error (.arity f.decl.name f.decl.params.length args.length) := by
  rw [arity, checkArity]
  simp only [beq_iff_eq]

namespace Engine

/-- **What becomes of the handler of an event.** Let a script declare functions for an event at its
top level, and let nothing else in it bind that name, nor any function that the host lends. Once the
top level has run, the event calls the last of these functions. Its arguments are those of the
event, as many as the first function has parameters, null for the missing ones. So the call takes
them if and only if the first and the last function have equally many parameters, for one if there
is only one; if not, the event fails with that. -/
theorem runEvent_handler (e : Engine) (script : Script) (event : String) (args : List Value)
    (c : Context) (enabled : script.enabled) {p : Program}
    (parsed : (e.program? script.id script.source).1 = .ok p) (only : p.DeclaresOnly event)
    (lends : c.LendsOnly (Value.BindsOnly (· ≠ event))) {first : Function}
    (found : p.function? event = some first) :
    let asked := (e.program? script.id script.source).2
    let limits := asked.config.limits
    let start : Machine := { world := ⟨c.orScript script.id, asked.subscriptions⟩ }
    let fitted := fitArgs first.params.length args
    e.runEvent script event args c =
        asked.inWorld (c.orScript script.id) (p.runEvent limits event fitted) ∧
      fitted.length = first.params.length ∧
      (∀ i < first.params.length, fitted[i]? = some (args[i]?.getD .null)) ∧
      ∃ last, p.lastFunction? event = some last ∧
        ((∀ f ∈ Stmt.functions p.statements, f.name = event → f = first) → last = first) ∧
        ∀ value m, p.exec limits start = .ok value m →
          m.scopes.lookup? Program.topLevel event =
              some (.function ⟨0, last, Program.topLevel⟩) ∧
            p.execEvent limits event fitted start =
              invokeAt limits limits.maxCallDepth ⟨0, last, Program.topLevel⟩ fitted
                { m with line := first.line } ∧
            (Closure.arity ⟨0, last, Program.topLevel⟩ fitted = .ok () ↔
              first.params.length = last.params.length) ∧
            (first.params.length ≠ last.params.length →
              p.execEvent limits event fitted start =
                .error (.arity event last.params.length first.params.length)
                  { m with line := first.line }) := by
  intro asked limits start fitted
  have length : fitted.length = first.params.length := length_fitArgs ..
  refine ⟨?_, length, fun i inside => getElem?_fitArgs args inside, ?_⟩
  · rw [runEvent_eq e script event args c enabled, parsed]
    dsimp only
    rw [found]
  · obtain ⟨last, isLast⟩ := Program.exists_lastFunction? found
    obtain ⟨named, front, back, split, -⟩ := Program.split_of_lastFunction? isLast
    have declared : last ∈ Stmt.functions p.statements :=
      split ▸ List.mem_append_right _ List.mem_cons_self
    refine ⟨last, isLast, fun alone => alone last declared named, fun value m run => ?_⟩
    have bound := Program.lookup?_of_exec only (lends.orScript script.id) isLast run
    have calls := Program.execEvent_eq_invokeAt found run bound fitted
    have arity := Closure.arity_eq ⟨0, last, Program.topLevel⟩ fitted
    rw [length] at arity
    refine ⟨bound, calls, ?_, fun differ => ?_⟩
    · rw [arity]
      split_ifs with same
      · exact iff_of_true rfl same
      · exact iff_of_false (fun eq => nomatch eq) same
    · rw [if_neg differ] at arity
      rw [calls, Plan.invokeAt_of_argsRefused arity, named]

end Engine

/-- A script with one function for an event, and with two functions for another. -/
def armour : Script :=
  .new "s" "r" .item none "hit(a, b):\n    return b\nwear():\n    return\nwear(a):\n    return\n"

/-- The tokens of its source. -/
def armourTokens : List Token :=
  [⟨.name "hit", "hit", 1, 1⟩, ⟨.mark .leftParen, "(", 1, 4⟩, ⟨.name "a", "a", 1, 5⟩,
    ⟨.mark .comma, ",", 1, 6⟩, ⟨.name "b", "b", 1, 8⟩, ⟨.mark .rightParen, ")", 1, 9⟩,
    ⟨.mark .colon, ":", 1, 10⟩, ⟨.mark .newline, "\\n", 1, 11⟩, ⟨.mark .indent, "", 2, 5⟩,
    ⟨.mark .returnWord, "return", 2, 5⟩, ⟨.name "b", "b", 2, 12⟩,
    ⟨.mark .newline, "\\n", 2, 13⟩, ⟨.mark .dedent, "", 3, 1⟩, ⟨.name "wear", "wear", 3, 1⟩,
    ⟨.mark .leftParen, "(", 3, 5⟩, ⟨.mark .rightParen, ")", 3, 6⟩, ⟨.mark .colon, ":", 3, 7⟩,
    ⟨.mark .newline, "\\n", 3, 8⟩, ⟨.mark .indent, "", 4, 5⟩,
    ⟨.mark .returnWord, "return", 4, 5⟩, ⟨.mark .newline, "\\n", 4, 11⟩,
    ⟨.mark .dedent, "", 5, 1⟩, ⟨.name "wear", "wear", 5, 1⟩, ⟨.mark .leftParen, "(", 5, 5⟩,
    ⟨.name "a", "a", 5, 6⟩, ⟨.mark .rightParen, ")", 5, 7⟩, ⟨.mark .colon, ":", 5, 8⟩,
    ⟨.mark .newline, "\\n", 5, 9⟩, ⟨.mark .indent, "", 6, 5⟩,
    ⟨.mark .returnWord, "return", 6, 5⟩, ⟨.mark .newline, "\\n", 6, 11⟩,
    ⟨.mark .dedent, "", 7, 1⟩, ⟨.mark .endOfInput, "", 7, 1⟩]

/-- The function for the one event. -/
def armourHit : Function := ⟨"hit", ["a", "b"], [.leave 2 (some (.variable "b"))], 1⟩

/-- The program of its source. -/
def armourProgram : Program :=
  ⟨[.function 1 "hit" ["a", "b"] [.leave 2 (some (.variable "b"))],
    .function 3 "wear" [] [.leave 4 none], .function 5 "wear" ["a"] [.leave 6 none]]⟩

theorem armour_program : Program.ofSource? armour.source = .ok armourProgram := by
  have tokens : Token.tokenize armour.source = armourTokens := by decide
  have program : Program.ofTokens? armourTokens = .ok armourProgram := rfl
  rw [Program.ofSource?, tokens, program]

theorem armour_program? (config : Config) :
    ((Engine.new config).program? armour.id armour.source).1 = .ok armourProgram := by
  rw [Engine.program?_of_faithful (Cache.faithful_of_absent rfl), armour_program]

theorem armourProgram_declaresOnly (event : String) : armourProgram.DeclaresOnly event := by
  intro stmt mem
  simp only [armourProgram, List.mem_cons, List.not_mem_nil, or_false] at mem
  rcases mem with rfl | rfl | rfl
  all_goals exact .inr ⟨_, rfl, trivial, trivial⟩

theorem armourProgram_exec (limits : Limits) (world : World) :
    ∃ m, armourProgram.exec limits { world := world } = .ok .null m := ⟨_, rfl⟩

/-- Without a second argument, `hit` is called with null for it. -/
theorem armour_runEvent_handler :
    let asked := ((Engine.new ({} : Config)).program? armour.id armour.source).2
    let start : Machine := { world := ⟨Context.orScript {} armour.id, asked.subscriptions⟩ }
    ∃ m : Machine, Closure.arity ⟨0, armourHit, Program.topLevel⟩ [.string "x", .null] = .ok () ∧
      armourProgram.execEvent asked.config.limits "hit" [.string "x", .null] start =
        invokeAt asked.config.limits asked.config.limits.maxCallDepth
          ⟨0, armourHit, Program.topLevel⟩ [.string "x", .null] { m with line := 1 } := by
  intro asked start
  have lends : ({} : Context).LendsOnly (Value.BindsOnly (· ≠ "hit")) :=
    ⟨fun _ mem => absurd mem List.not_mem_nil, fun _ mem => absurd mem List.not_mem_nil,
      fun _ mem => absurd mem List.not_mem_nil, fun _ mem => absurd mem List.not_mem_nil⟩
  have found : armourProgram.function? "hit" = some armourHit := rfl
  have isLast : armourProgram.lastFunction? "hit" = some armourHit := rfl
  have fitted : Engine.fitArgs armourHit.params.length [.string "x"] = [.string "x", .null] := rfl
  obtain ⟨-, -, -, last, isLast', -, calls⟩ := Engine.runEvent_handler (.new {}) armour "hit"
    [.string "x"] {} rfl (armour_program? {}) (armourProgram_declaresOnly "hit") lends found
  obtain rfl : armourHit = last := Option.some.inj (isLast.symm.trans isLast')
  obtain ⟨m, run⟩ := armourProgram_exec asked.config.limits start.world
  obtain ⟨-, called, fits, -⟩ := calls .null m run
  rw [fitted] at called fits
  exact ⟨m, fits.2 rfl, called⟩

/-- **An event whose last function has more parameters than its first.** The arguments of `wear` are
fitted to the first one, and the last one refuses them. -/
theorem exists_handler_refused :
    armour.enabled ∧
      (∃ p, ((Engine.new {}).program? armour.id armour.source).1 = .ok p ∧
        p.DeclaresOnly "wear" ∧ (p.function? "wear").isSome) ∧
      ((Engine.new {}).runEvent armour "wear" [] {}).1.failure =
        some ⟨.arity "wear" 1 0, none, []⟩ :=
  ⟨rfl, ⟨armourProgram, armour_program? {}, armourProgram_declaresOnly "wear", rfl⟩,
    by decide +kernel⟩

end SheetScript
