import Mathlib.Data.List.Basic
import SheetScript.Table.Lookup

/-!
# What a table finds

The three ways into a table, a column as a list, the rows that match and the cell of a row, look
for a header and for a cell in the same way. So they agree with the grid, whatever its rows are
like.

* `Table.IsColumn` is the first column under a header, and `Table.cellIn` is the cell that a row has
  in a column.
* `Table.LooksUp` says what a table answers about some headers and rows, told without positions of
  rows.
* `Table.ofChart_looksUp`: the table of a chart answers so about the grid of the chart.
-/

namespace SheetScript

/-- A JSON array of arrays has these arrays as its rows. -/
theorem Json.grid?_array (grid : List (List Json)) :
    Json.grid? (.array (grid.map .array)) = some grid := by
  rw [grid?]
  induction grid with
  | nil => rfl
  | cons row rest ih =>
    rw [List.map_cons, List.mapM_cons, ih]
    rfl

namespace Table

variable {t : Table} {headers : List String} {rows : List (List Json)} {c h title : String}
  {v : Value} {k j : Nat}

/-! ## Columns and cells -/

/-- The first column under a header. -/
def IsColumn (headers : List String) (c : String) (k : Nat) : Prop :=
  headers[k]? = some c ∧ ∀ j < k, headers[j]? ≠ some c

/-- The cell of a row in a column, `null` if the row ends before it. -/
def cellIn (k : Nat) (row : List Json) : Value := ((row[k]?).map Value.ofJson).getD .null

theorem columnIndex?_eq_some_iff : t.columnIndex? c = some k ↔ IsColumn t.header c k := by
  rw [columnIndex?, List.findIdx?_eq_some_iff_getElem, IsColumn]
  constructor
  · rintro ⟨inside, here, before⟩
    refine ⟨by rw [List.getElem?_eq_getElem inside, eq_of_beq here], fun j lt same => ?_⟩
    obtain ⟨_, same⟩ := List.getElem?_eq_some_iff.1 same
    exact before j lt (beq_iff_eq.2 same)
  · rintro ⟨here, before⟩
    obtain ⟨inside, here⟩ := List.getElem?_eq_some_iff.1 here
    refine ⟨inside, beq_iff_eq.2 here, fun j lt same => before j lt ?_⟩
    rw [List.getElem?_eq_getElem (Nat.lt_trans lt inside), eq_of_beq same]

theorem columnIndex?_eq_none_iff : t.columnIndex? c = none ↔ c ∉ t.header := by
  rw [columnIndex?, List.findIdx?_eq_none_iff]
  exact ⟨fun other mem => by simpa using other c mem,
    fun absent d mem => beq_false_of_ne fun same => absent (same ▸ mem)⟩

theorem cell_eq (t : Table) (row column : Nat) :
    t.cell row column = cellIn column (t.rows.getD row []) := by
  rw [cell, cellIn, List.getD_eq_getElem?_getD]
  cases (t.rows.getD row [])[column]? <;> rfl

/-- The rows, told by their positions. -/
theorem map_getD_range (rows : List (List Json)) :
    (List.range rows.length).map (rows.getD · []) = rows := by
  refine List.ext_getElem (by simp) fun i inside _ => ?_
  rw [List.length_map, List.length_range] at inside
  rw [List.getElem_map, List.getElem_range, List.getD_eq_getElem?_getD,
    List.getElem?_eq_getElem inside, Option.getD_some]

/-! ## Matching rows -/

theorem positionsWhere_of_isColumn (column : IsColumn t.header c k) (v : Value) :
    t.positionsWhere c v = (List.range t.rows.length).filter
      ((fun row => (cellIn k row).looseEq v) ∘ (t.rows.getD · [])) := by
  rw [positionsWhere, columnIndex?_eq_some_iff.2 column]
  refine List.filter_congr fun row _ => ?_
  rw [cell_eq]
  rfl

theorem positionsWhere_of_not_mem (absent : c ∉ t.header) (v : Value) :
    t.positionsWhere c v = [] := by
  rw [positionsWhere, columnIndex?_eq_none_iff.2 absent]

/-- As many positions match as rows. -/
theorem length_positionsWhere (column : IsColumn t.header c k) (v : Value) :
    (t.positionsWhere c v).length = t.rows.countP fun row => (cellIn k row).looseEq v := by
  rw [positionsWhere_of_isColumn column, ← List.countP_eq_length_filter, ← List.countP_map,
    map_getD_range]

/-- The first position that matches is that of the first row that does. -/
theorem head?_positionsWhere (column : IsColumn t.header c k) (v : Value) :
    (t.positionsWhere c v).head?.map (t.rows.getD · []) =
      t.rows.find? fun row => (cellIn k row).looseEq v := by
  conv_rhs => rw [← map_getD_range t.rows]
  rw [positionsWhere_of_isColumn column, List.head?_filter, List.find?_map]

/-! ## Answers -/

/-- What a table of that title answers about headers and rows, when it is asked for the column
under `c`, for the rows where the cell under `c` equals `v`, and for the cell under `h` of those. -/
structure LooksUp (t : Table) (title : String) (headers : List String) (rows : List (List Json)) :
    Prop where
  /-- The column is missing exactly if no header is `c`. -/
  column_missing : ∀ c, t.column c = .error (.columnNotFound title c) ↔ c ∉ headers
  /-- The table is empty exactly if there is the column, and no row. -/
  column_empty : ∀ c, t.column c = .error (.emptyChart title) ↔ c ∈ headers ∧ rows = []
  /-- Otherwise the column lists the cells of all rows. -/
  column_cells : ∀ {c k}, IsColumn headers c k → rows ≠ [] → t.column c = .ok (rows.map (cellIn k))
  /-- No row matches in a column that is missing. -/
  count_missing : ∀ {c} identity v, c ∉ headers → (t.rowWhere identity c v).count = 0
  /-- The rows counted are those whose cell equals the value. -/
  count_column : ∀ {c k} identity v, IsColumn headers c k →
    (t.rowWhere identity c v).count = rows.countP fun row => (cellIn k row).looseEq v
  /-- A cell is `null` under a header that is missing. -/
  value_missing : ∀ {h} identity c v, h ∉ headers → (t.rowWhere identity c v).valueIn h = .null
  /-- A cell is `null` if there are no rows. -/
  value_empty : ∀ identity c v h, rows = [] → (t.rowWhere identity c v).valueIn h = .null
  /-- The cell is that of the first row that matches. -/
  value_match : ∀ {c k h j row} identity v, IsColumn headers c k → IsColumn headers h j →
    rows.find? (fun row => (cellIn k row).looseEq v) = some row →
      (t.rowWhere identity c v).valueIn h = cellIn j row
  /-- It is that of the first row of all if none matches, be it that there is no column `c`. -/
  value_first : ∀ {c h j row} identity v,
    (∀ k, IsColumn headers c k → ∀ row ∈ rows, (cellIn k row).looseEq v = false) →
      IsColumn headers h j → rows.head? = some row →
        (t.rowWhere identity c v).valueIn h = cellIn j row

theorem column_of_isColumn (column : IsColumn t.header c k) :
    t.column c =
      if t.rows.isEmpty then .error (.emptyChart t.name) else .ok (t.rows.map (cellIn k)) := by
  have cells : ((List.range t.rows.length).map fun row => t.cell row k) = t.rows.map (cellIn k) := by
    conv_rhs => rw [← map_getD_range t.rows, List.map_map]
    exact List.map_congr_left fun row _ => t.cell_eq row k
  rw [Table.column, columnIndex?_eq_some_iff.2 column, ← cells]

theorem column_of_not_mem (absent : c ∉ t.header) :
    t.column c = .error (.columnNotFound t.name c) := by
  rw [Table.column, columnIndex?_eq_none_iff.2 absent]

theorem exists_isColumn (mem : c ∈ t.header) : ∃ k, IsColumn t.header c k := by
  cases found : t.columnIndex? c with
  | none => exact absurd mem (columnIndex?_eq_none_iff.1 found)
  | some k => exact ⟨k, columnIndex?_eq_some_iff.1 found⟩

theorem valueIn_rowWhere_of_isColumn (identity : Nat) (c : String) (v : Value)
    (column : IsColumn t.header h j) :
    (t.rowWhere identity c v).valueIn h =
      cellIn j (t.rows.getD ((t.positionsWhere c v).head?.getD 0) []) := by
  have index : (t.rowWhere identity c v).table.columnIndex? h = some j :=
    columnIndex?_eq_some_iff.2 column
  rw [Row.valueIn, index]
  exact cell_eq ..

theorem valueIn_rowWhere_of_not_mem (identity : Nat) (c : String) (v : Value)
    (absent : h ∉ t.header) : (t.rowWhere identity c v).valueIn h = .null := by
  have index : (t.rowWhere identity c v).table.columnIndex? h = none :=
    columnIndex?_eq_none_iff.2 absent
  rw [Row.valueIn, index]

/-- Without a row that matches, no position does. -/
theorem head?_positionsWhere_of_none (v : Value)
    (none : ∀ k, IsColumn t.header c k → ∀ row ∈ t.rows, (cellIn k row).looseEq v = false) :
    (t.positionsWhere c v).head? = .none := by
  by_cases mem : c ∈ t.header
  · obtain ⟨k, column⟩ := exists_isColumn mem
    have first := head?_positionsWhere column v
    rw [List.find?_eq_none.2 fun row mem => by simp [none k column row mem]] at first
    exact Option.map_eq_none_iff.1 first
  · rw [positionsWhere_of_not_mem mem]
    rfl

/-- A table answers about its own header and rows. -/
theorem looksUp (t : Table) : t.LooksUp t.name t.header t.rows where
  column_missing c := by
    refine ⟨fun failed mem => ?_, column_of_not_mem⟩
    obtain ⟨k, column⟩ := exists_isColumn mem
    rw [column_of_isColumn column] at failed
    split_ifs at failed
    cases failed
  column_empty c := by
    by_cases mem : c ∈ t.header
    · obtain ⟨k, column⟩ := exists_isColumn mem
      rw [column_of_isColumn column]
      by_cases empty : t.rows = []
      · simp [empty, mem]
      · simp [empty]
    · rw [column_of_not_mem mem]
      simp [mem]
  column_cells column some := by
    rw [column_of_isColumn column, if_neg (by simpa using some)]
  count_missing identity v absent := congrArg List.length (positionsWhere_of_not_mem absent v)
  count_column identity v column := length_positionsWhere column v
  value_missing identity c v absent := valueIn_rowWhere_of_not_mem identity c v absent
  value_empty identity c v h empty := by
    by_cases mem : h ∈ t.header
    · obtain ⟨j, column⟩ := exists_isColumn mem
      rw [valueIn_rowWhere_of_isColumn identity c v column, empty]
      rfl
    · exact valueIn_rowWhere_of_not_mem identity c v mem
  value_match {c _ _ _ _} identity v column target found := by
    have first := head?_positionsWhere column v
    rw [found] at first
    obtain ⟨i, head, row⟩ := Option.map_eq_some_iff.1 first
    rw [valueIn_rowWhere_of_isColumn identity c v target, head, Option.getD_some, row]
  value_first {c _ _ _} identity v none target first := by
    rw [valueIn_rowWhere_of_isColumn identity c v target, head?_positionsWhere_of_none v none,
      Option.getD_none, List.getD_eq_getElem?_getD, ← List.head?_eq_getElem?, first,
      Option.getD_some]

/-- **A chart is looked up in its grid**: its first row is the header and the others are the data,
whatever their lengths are. -/
theorem ofChart_looksUp {chart : Chart} {grid : List (List Json)}
    (reads : Json.read? chart.data = some (.array (grid.map .array))) (identity : Nat) :
    ∃ t, ofChart identity chart = .ok t ∧
      t.LooksUp chart.title ((grid.head?.getD []).map headerText) grid.tail := by
  refine ⟨⟨identity, chart.title, (grid.head?.getD []).map headerText, grid.drop 1⟩, ?_, ?_⟩
  · rw [ofChart, reads, Option.bind_some, Json.grid?_array]
  · rw [← List.drop_one]
    exact looksUp _

/-- A chart with two headers of one name, and rows of other lengths than the header. -/
def ragged : Chart where
  id := "chart-1"
  rulesetId := "r1"
  title := "Levels"
  data := "[[\"Level\", \"XP\", \"Level\"], [1, 0], [\"2\"], [], [null, 900, 9]]"

/-- The rows of that chart. -/
def raggedGrid : List (List Json) :=
  [[.string "Level", .string "XP", .string "Level"], [.integer 1, .integer 0], [.string "2"], [],
    [.null, .integer 900, .integer 9]]

-- the data is read character by character
set_option maxRecDepth 8000 in
theorem read?_ragged : Json.read? ragged.data = some (.array (raggedGrid.map .array)) := rfl

theorem ragged_looksUp :
    ∃ t, ofChart 0 ragged = .ok t ∧ (t.rowWhere 1 "XP" .null).count = 2 ∧
      (t.rowWhere 1 "XP" .null).valueIn "Level" = .string "2" ∧
      t.column "Tier" = .error (.columnNotFound "Levels" "Tier") := by
  obtain ⟨t, made, looks⟩ := ofChart_looksUp read?_ragged 0
  have xp : IsColumn ["Level", "XP", "Level"] "XP" 1 := ⟨rfl, by decide⟩
  have level : IsColumn ["Level", "XP", "Level"] "Level" 0 := ⟨rfl, by decide⟩
  refine ⟨t, made, ?_, ?_, (looks.column_missing "Tier").2 (by decide)⟩
  · exact looks.count_column 1 .null xp
  · exact looks.value_match 1 .null xp level rfl

end Table

end SheetScript
