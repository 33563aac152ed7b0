/-!
# Orders of work

Work is given by positions in a list: `needs i` are the positions whose work `i` waits for. At each
step the earliest waiting position runs that waits for nothing any more; when every one still waits
for another, there is a cycle, and the earliest of all runs.

* `Order.next?` is the position that runs next.
* `Order.sort` is the order in which all run.
-/

namespace SheetScript.Order

/-- The position of `waiting` that runs next. Positions that are not waiting have run. -/
def next? (needs : Nat → List Nat) (waiting : List Nat) : Option Nat :=
  (waiting.find? fun i => (needs i).all fun j => !waiting.contains j).or waiting.head?

/-- The order of at most `room` positions of `waiting`. -/
def sortFrom (needs : Nat → List Nat) : Nat → List Nat → List Nat
  | 0, _ => []
  | room + 1, waiting =>
    match next? needs waiting with
    | none => []
    | some i => i :: sortFrom needs room (waiting.erase i)

/-- The order of the first `count` positions. -/
def sort (needs : Nat → List Nat) (count : Nat) : List Nat :=
  sortFrom needs count (List.range count)

end SheetScript.Order
