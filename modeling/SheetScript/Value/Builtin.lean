/-!
# The functions of the language

The names of the built-in functions and of the methods of arrays, charts and rows. The lists are
closed: a name that is on none of them is no function and no method.
-/

namespace SheetScript

/-- A built-in function. -/
inductive Builtin where
  | subscribe | announce | log | floor | ceil | round | abs | min | max | sqrt | pow
  | number | string | chart
  deriving DecidableEq, Repr, Inhabited

namespace Builtin

/-- The name of a function. -/
def name : Builtin → String
  | subscribe => "subscribe"
  | announce => "announce"
  | log => "log"
  | floor => "floor"
  | ceil => "ceil"
  | round => "round"
  | abs => "abs"
  | .min => "min"
  | .max => "max"
  | sqrt => "sqrt"
  | pow => "pow"
  | number => "number"
  | string => "string"
  | chart => "Chart"

/-- All functions. -/
def all : List Builtin :=
  [subscribe, announce, log, floor, ceil, round, abs, .min, .max, sqrt, pow, number, string, chart]

/-- The function of that name. -/
def ofName? (s : String) : Option Builtin := all.find? (·.name == s)

end Builtin

/-- A method of arrays. -/
inductive ArrayMethod where
  | count | first | last | random | filter | filterEmpty
  deriving DecidableEq, Repr, Inhabited

namespace ArrayMethod

/-- The name of a method. -/
def name : ArrayMethod → String
  | count => "count"
  | first => "first"
  | last => "last"
  | random => "random"
  | filter => "filter"
  | filterEmpty => "filterEmpty"

/-- All methods. -/
def all : List ArrayMethod := [count, first, last, random, filter, filterEmpty]

/-- The method of that name. -/
def ofName? (s : String) : Option ArrayMethod := all.find? (·.name == s)

end ArrayMethod

/-- A method of charts. -/
inductive ChartMethod where
  | get | rowWhere
  deriving DecidableEq, Repr, Inhabited

namespace ChartMethod

/-- The name of a method. -/
def name : ChartMethod → String
  | get => "get"
  | rowWhere => "rowWhere"

/-- All methods. -/
def all : List ChartMethod := [get, rowWhere]

/-- The method of that name. -/
def ofName? (s : String) : Option ChartMethod := all.find? (·.name == s)

end ChartMethod

/-- A method of rows. -/
inductive RowMethod where
  | valueInColumn | count
  deriving DecidableEq, Repr, Inhabited

namespace RowMethod

/-- The name of a method. -/
def name : RowMethod → String
  | valueInColumn => "valueInColumn"
  | count => "count"

/-- All methods. -/
def all : List RowMethod := [valueInColumn, count]

/-- The method of that name. -/
def ofName? (s : String) : Option RowMethod := all.find? (·.name == s)

end RowMethod

end SheetScript
