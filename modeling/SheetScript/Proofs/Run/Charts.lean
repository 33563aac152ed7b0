import Mathlib.Data.List.Induction
import SheetScript.Proofs.Run.Change

/-!
# Charts that have been read

A context reads a chart when it is asked for it, and keeps the table under the name it was asked by.
A chart that is added under that name later takes the place of the chart, but not that of the table.

* `ChartCall.latest?` is the chart added last under a name, and `ChartCall.readings` are the charts
  that the calls for a name have come upon and could read.
* `Context.HoldsCharts` says that a context has the charts added last and the tables of those read
  first. Each call keeps it: `HoldsCharts.add` and `HoldsCharts.ask`.
* `Context.answer_afterCalls` is what a name stands for after any calls. It need not be the chart
  added last: `Context.not_answer_latest`.
-/

namespace SheetScript

/-- The identity of a table has no part in how its chart is read. -/
theorem Table.ofChart_eq_map (identity : Nat) (chart : Chart) :
    ofChart identity chart = (ofChart 0 chart).map fun t => { t with identity := identity } := by
  unfold ofChart
  cases (Json.read? chart.data).bind Json.grid? <;> rfl

theorem Table.isSome_ofChart (identity : Nat) (chart : Chart) :
    (ofChart identity chart).toOption.isSome = (ofChart 0 chart).isOk := by
  rw [ofChart_eq_map]
  cases ofChart 0 chart <;> rfl

/-! ## Calls -/

/-- A call about the charts of a context. -/
inductive ChartCall where
  | add (chart : Chart)
  | ask (name : String)
  deriving DecidableEq

namespace ChartCall

/-- The chart that a call adds under a name, as its id or its title. -/
def added? (name : String) : ChartCall → Option Chart
  | .add chart => if name = chart.id ∨ name = chart.title then some chart else none
  | .ask _ => none

/-- The chart that has been added last under a name. -/
def latest? (calls : List ChartCall) (name : String) : Option Chart :=
  calls.reverse.findSome? (added? name)

/-- The chart that the call at a position reads under a name: the call asks for the name, and the
chart added last before it can be read. -/
def readAt? (calls : List ChartCall) (name : String) (position : Nat) : Option Chart :=
  if calls[position]? = some (.ask name) then
    (latest? (calls.take position) name).filter fun chart => (Table.ofChart 0 chart).isOk
  else none

/-- The charts that have been read under a name, call by call. -/
def readings (calls : List ChartCall) (name : String) : List Chart :=
  (List.range calls.length).filterMap (readAt? calls name)

/-- Look a chart up and read it, as the table of that identity. -/
def readAfresh (chart? : Option Chart) (name : String) (identity : Nat) :
    Except ScriptError Table :=
  match chart? with
  | none => .error (.host (.noChart name))
  | some chart => Table.ofChart identity chart

theorem latest?_concat (calls : List ChartCall) (call : ChartCall) (name : String) :
    latest? (calls ++ [call]) name = (added? name call).or (latest? calls name) := by
  rw [latest?, List.reverse_append, List.findSome?_append]
  cases h : added? name call <;> simp [h, latest?]

theorem readings_concat (calls : List ChartCall) (call : ChartCall) (name : String) :
    readings (calls ++ [call]) name =
      readings calls name ++ (readAt? (calls ++ [call]) name calls.length).toList := by
  have before : ∀ i ∈ List.range calls.length,
      readAt? (calls ++ [call]) name i = readAt? calls name i := by
    intro i mem
    have inside := List.mem_range.1 mem
    rw [readAt?, readAt?, List.getElem?_append_left inside, List.take_append_of_le_length inside.le]
  rw [readings, List.length_append, List.length_singleton, List.range_succ, List.filterMap_append,
    List.filterMap_congr before]
  cases h : readAt? (calls ++ [call]) name calls.length <;> simp [h, readings]

theorem readings_add (calls : List ChartCall) (chart : Chart) (name : String) :
    readings (calls ++ [.add chart]) name = readings calls name := by
  rw [readings_concat, readAt?, List.getElem?_concat_length, if_neg (by simp), Option.toList_none,
    List.append_nil]

/-- A call for a name reads the chart added last, unless one has been read before. -/
theorem head?_readings_ask (calls : List ChartCall) (asked name : String) :
    (readings (calls ++ [.ask asked]) name).head? = (readings calls name).head?.or
      (if asked = name then (latest? calls name).filter fun chart => (Table.ofChart 0 chart).isOk
        else none) := by
  rw [readings_concat, List.head?_append, Option.head?_toList, readAt?,
    List.getElem?_concat_length, List.take_left]
  simp only [Option.some.injEq, ask.injEq]

theorem isOk_of_mem_readings {calls : List ChartCall} {name : String} {chart : Chart}
    (mem : chart ∈ readings calls name) : (Table.ofChart 0 chart).isOk := by
  obtain ⟨i, -, read⟩ := List.mem_filterMap.1 mem
  rw [readAt?] at read
  split_ifs at read
  exact (Option.filter_eq_some_iff.1 read).2

end ChartCall

namespace Context

open ChartCall

variable {c : Context} {calls : List ChartCall} {name : String}

/-- The context after a call. -/
def performChart (c : Context) : ChartCall → Context
  | .add chart => c.addChart chart
  | .ask name => (Context.table name).left c

/-- The context after some calls. -/
def afterCalls (c : Context) (calls : List ChartCall) : Context := calls.foldl performChart c

/-- What a context answers when it is asked for a chart. -/
def answer (c : Context) (name : String) : Except ScriptError Table :=
  match Context.table name c with
  | .ok t _ => .ok t
  | .error e _ => .error e

/-! ## One look-up -/

/-- A look-up finds the table that is kept under the name, or else reads the chart and keeps its
table. A chart that cannot be read costs an identity too. -/
theorem table_eq (c : Context) (name : String) :
    Context.table name c =
      match Entries.find? c.tables name, Entries.find? c.charts name with
      | some t, _ => .ok t c
      | none, none => .error (.host (.noChart name)) c
      | none, some chart =>
        match Table.ofChart c.fresh chart with
        | .error e => .error e { c with fresh := c.fresh + 1 }
        | .ok t =>
          .ok t { c with fresh := c.fresh + 1, tables := Entries.insert c.tables name t } := by
  rw [Context.table, Act.get_bind]
  cases Entries.find? c.tables name with
  | some t => rfl
  | none =>
    cases Entries.find? c.charts name with
    | none => rfl
    | some chart =>
      change EStateM.bind (MonadExcept.ofExcept (Table.ofChart c.fresh chart)) _ _ = _
      dsimp only
      cases Table.ofChart c.fresh chart <;> rfl

theorem charts_left_table (c : Context) (name : String) :
    ((Context.table name).left c).charts = c.charts := by
  rw [Act.left, table_eq]
  cases Entries.find? c.tables name with
  | some t => rfl
  | none =>
    cases Entries.find? c.charts name with
    | none => rfl
    | some chart =>
      dsimp only
      cases Table.ofChart c.fresh chart <;> rfl

/-- A look-up keeps the table of the name, unless one is kept already. -/
theorem tables_left_table (c : Context) (asked name : String) :
    Entries.find? ((Context.table asked).left c).tables name = (Entries.find? c.tables name).or
      (if asked = name then
        (Entries.find? c.charts name).bind fun chart => (Table.ofChart c.fresh chart).toOption
      else none) := by
  by_cases same : asked = name
  · subst same
    rw [if_pos rfl, Act.left, table_eq]
    cases kept : Entries.find? c.tables asked with
    | some t => exact kept
    | none =>
      cases Entries.find? c.charts asked with
      | none => exact kept
      | some chart =>
        dsimp only [Option.bind_some]
        cases Table.ofChart c.fresh chart with
        | error e => exact kept
        | ok t => exact Entries.find?_insert_self ..
  · rw [if_neg same, Option.or_none, Act.left, table_eq]
    cases Entries.find? c.tables asked with
    | some t => rfl
    | none =>
      cases Entries.find? c.charts asked with
      | none => rfl
      | some chart =>
        dsimp only
        cases Table.ofChart c.fresh chart with
        | error e => rfl
        | ok t => exact Entries.find?_insert_of_ne _ _ (Ne.symm same)

/-! ## What is kept -/

/-- After some calls a context has the charts added last, and of those that have been read the
tables of the first. -/
structure HoldsCharts (calls : List ChartCall) (c : Context) : Prop where
  charts : ∀ name, Entries.find? c.charts name = latest? calls name
  tables : ∀ name, ∃ identity, Entries.find? c.tables name =
    (readings calls name).head?.bind fun chart => (Table.ofChart identity chart).toOption

namespace HoldsCharts

theorem add (h : HoldsCharts calls c) (chart : Chart) :
    HoldsCharts (calls ++ [.add chart]) (c.addChart chart) where
  charts name := by
    rw [addChart, Entries.find?_insert, Entries.find?_insert, latest?_concat, added?, h.charts]
    by_cases title : name = chart.title <;> by_cases id : name = chart.id <;> simp [title, id]
  tables name := by
    rw [readings_add]
    exact h.tables name

theorem ask (h : HoldsCharts calls c) (asked : String) :
    HoldsCharts (calls ++ [.ask asked]) ((Context.table asked).left c) where
  charts name := by
    rw [charts_left_table, h.charts, latest?_concat]
    rfl
  tables name := by
    obtain ⟨identity, kept⟩ := h.tables name
    rw [tables_left_table, head?_readings_ask, h.charts, kept]
    cases first : (readings calls name).head? with
    | some chart =>
      have ok := isOk_of_mem_readings (List.mem_of_head? first)
      rw [← Table.isSome_ofChart identity] at ok
      obtain ⟨t, made⟩ := Option.isSome_iff_exists.1 ok
      refine ⟨identity, ?_⟩
      rw [Option.bind_some, Option.some_or, Option.bind_some, made, Option.some_or]
    | none =>
      refine ⟨c.fresh, ?_⟩
      rw [Option.bind_none, Option.none_or, Option.none_or]
      split_ifs
      · cases latest? calls name with
        | none => rfl
        | some chart =>
          rw [Option.bind_some, Option.filter_some]
          split_ifs with ok
          · rfl
          · rw [← Table.isSome_ofChart c.fresh, Option.not_isSome_iff_eq_none] at ok
            exact ok
      · rfl

/-- What a name stands for. -/
theorem answer (h : HoldsCharts calls c) (name : String) : ∃ identity, c.answer name =
    readAfresh ((readings calls name).head?.or (latest? calls name)) name identity := by
  obtain ⟨identity, kept⟩ := h.tables name
  rw [Context.answer, table_eq, h.charts, kept]
  cases first : (readings calls name).head? with
  | some chart =>
    have ok := isOk_of_mem_readings (List.mem_of_head? first)
    rw [← Table.isSome_ofChart identity] at ok
    refine ⟨identity, ?_⟩
    rw [Option.bind_some, Option.some_or, readAfresh]
    cases made : Table.ofChart identity chart with
    | error e => rw [made] at ok; nomatch ok
    | ok t => rfl
  | none =>
    refine ⟨c.fresh, ?_⟩
    rw [Option.bind_none, Option.none_or]
    cases latest? calls name with
    | none => rfl
    | some chart =>
      rw [readAfresh]
      dsimp only
      cases Table.ofChart c.fresh chart <;> rfl

end HoldsCharts

theorem holdsCharts_afterCalls (charts : c.charts = []) (tables : c.tables = [])
    (calls : List ChartCall) : HoldsCharts calls (c.afterCalls calls) := by
  induction calls using List.reverseRecOn with
  | nil => exact ⟨fun name => by rw [afterCalls, List.foldl_nil, charts]; rfl,
      fun name => ⟨0, by rw [afterCalls, List.foldl_nil, tables]; rfl⟩⟩
  | append_singleton calls call ih =>
    rw [afterCalls, List.foldl_append]
    cases call with
    | add chart => exact ih.add chart
    | ask name => exact ih.ask name

/-- **A name keeps the chart it was first read as**: after any calls about charts, a new context
answers for a name as if the chart that has been read first under the name were read again. Until
one has been read, this is so for the chart added last under the name as its id or title. -/
theorem answer_afterCalls (charts : c.charts = []) (tables : c.tables = [])
    (calls : List ChartCall) (name : String) : ∃ identity,
      (c.afterCalls calls).answer name =
        readAfresh ((readings calls name).head?.or (latest? calls name)) name identity :=
  (holdsCharts_afterCalls charts tables calls).answer name

/-- A chart with that data. -/
def levels (id data : String) : Chart :=
  { id := id, rulesetId := "r1", title := "Levels", data := data }

/-- The chart that is added first. -/
def firstLevels : Chart := levels "chart-1" "[[\"Level\"],[1]]"

/-- Another chart of that title. -/
def otherLevels : Chart := levels "chart-2" "[[\"Level\"],[2]]"

/-- A chart is read, and then another one takes its place. -/
def replaced : List ChartCall := [.add firstLevels, .ask "Levels", .add otherLevels]

theorem grid_firstLevels : (Json.read? firstLevels.data).bind Json.grid? =
    some [[.string "Level"], [.integer 1]] := rfl

theorem grid_otherLevels : (Json.read? otherLevels.data).bind Json.grid? =
    some [[.string "Level"], [.integer 2]] := rfl

theorem latest?_replaced : latest? replaced "Levels" = some otherLevels := rfl

theorem readings_replaced : readings replaced "Levels" = [firstLevels] := by
  decide

theorem answer_replaced : ∃ identity,
    (({} : Context).afterCalls replaced).answer "Levels" =
      Table.ofChart identity firstLevels := by
  obtain ⟨identity, same⟩ := answer_afterCalls (c := {}) rfl rfl replaced "Levels"
  rw [readings_replaced] at same
  exact ⟨identity, same⟩

theorem not_answer_latest : ¬∀ (calls : List ChartCall) (name : String), ∃ identity,
    (({} : Context).afterCalls calls).answer name =
      readAfresh (latest? calls name) name identity := by
  intro fresh
  obtain ⟨identity, old⟩ := (holdsCharts_afterCalls (c := {}) rfl rfl replaced).answer "Levels"
  obtain ⟨other, new⟩ := fresh replaced "Levels"
  rw [readings_replaced, List.head?_cons, Option.some_or] at old
  rw [latest?_replaced] at new
  have same : Table.ofChart identity firstLevels = Table.ofChart other otherLevels :=
    old.symm.trans new
  rw [Table.ofChart, Table.ofChart, grid_firstLevels, grid_otherLevels] at same
  simp at same

end Context

end SheetScript
