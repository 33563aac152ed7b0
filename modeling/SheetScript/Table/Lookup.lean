import SheetScript.Error
import SheetScript.Json.Reader
import SheetScript.Record.Basic
import SheetScript.Value.Basic

/-!
# Charts as tables

* `Table.ofChart` reads the data of a chart: a JSON array of arrays. The first of them is the
  header, each cell as a text; the others are the rows. Rows may be of any length.
* `Table.column` lists the cells under a header.
* `Table.rowWhere` is the rows whose cell under a header equals a value.
* `Row.valueIn` is the cell of the first of those rows under another header. Without such a row it
  is the cell of the first row of the table.

A header that stands in several columns means the first of them, and a missing cell is `null`.
-/

namespace SheetScript

/-- The rows of a JSON array of arrays. -/
def Json.grid? : Json → Option (List (List Json))
  | .array rows => rows.mapM fun
    | .array cells => some cells
    | _ => none
  | _ => none

namespace Table

/-- The text of a header cell. -/
def headerText (cell : Json) : String := (Value.ofJson cell).display

/-- Read a chart, as the table of that identity. -/
def ofChart (identity : Nat) (chart : Chart) : Except ScriptError Table :=
  match (Json.read? chart.data).bind Json.grid? with
  | none => .error (.chartData chart.title)
  | some grid => .ok
    { identity := identity
      name := chart.title
      header := (grid.head?.getD []).map headerText
      rows := grid.drop 1 }

/-- The position of the first column under a header. -/
def columnIndex? (t : Table) (header : String) : Option Nat :=
  t.header.findIdx? (· == header)

/-- A cell, or `null` where the row ends before it. -/
def cell (t : Table) (row column : Nat) : Value :=
  Value.ofJson ((t.rows.getD row []).getD column .null)

/-- The cells under a header, row by row. -/
def column (t : Table) (header : String) : Except ScriptError (List Value) :=
  match t.columnIndex? header with
  | none => .error (.columnNotFound t.name header)
  | some column =>
    if t.rows.isEmpty then .error (.emptyChart t.name)
    else .ok ((List.range t.rows.length).map fun row => t.cell row column)

/-- The positions of the rows whose cell under a header equals a value. -/
def positionsWhere (t : Table) (header : String) (value : Value) : List Nat :=
  match t.columnIndex? header with
  | none => []
  | some column =>
    (List.range t.rows.length).filter fun row => (t.cell row column).looseEq value

/-- The rows whose cell under a header equals a value. -/
def rowWhere (t : Table) (identity : Nat) (header : String) (value : Value) : Row :=
  ⟨identity, t, t.positionsWhere header value⟩

end Table

namespace Row

/-- The cell under a header in the first of the rows, or in the first row of the table. -/
def valueIn (r : Row) (header : String) : Value :=
  match r.table.columnIndex? header with
  | none => .null
  | some column => r.table.cell (r.positions.head?.getD 0) column

/-- How many rows there are. -/
def count (r : Row) : Nat := r.positions.length

end Row

end SheetScript
