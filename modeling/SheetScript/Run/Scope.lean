import SheetScript.Value.Basic

/-!
# Variables

The scopes of a run stand in one array, and a place in it is the name of a scope. A chain of places,
the innermost first, is what a piece of a program sees: its own scope and the scopes around it.
Scopes are shared, so a change through one chain is seen through every chain that has the scope.

* `Scopes.lookup?` is the value that the first scope of a chain binds to a name.
* `Scopes.assign` changes that binding, or makes one in the innermost scope if there is none.
-/

namespace SheetScript

/-- The bindings of every scope of a run. -/
abbrev Scopes := Array (Entries Value)

/-- The scopes that a piece of a program sees, the innermost first. -/
abbrev Chain := List Nat

namespace Scopes

/-- The value that a scope binds to a name. -/
def binding? (scopes : Scopes) (place : Nat) (name : String) : Option Value :=
  Entries.find? (scopes.getD place []) name

/-- The value that the first scope of a chain binds to a name. -/
def lookup? (scopes : Scopes) (chain : Chain) (name : String) : Option Value :=
  chain.findSome? fun place => scopes.binding? place name

/-- Bind a name in a scope. -/
def define (scopes : Scopes) (place : Nat) (name : String) (value : Value) : Scopes :=
  scopes.modify place fun bindings => Entries.insert bindings name value

/-- The scope whose binding of a name the chain sees, or else its innermost scope. -/
def owner (scopes : Scopes) (chain : Chain) (name : String) : Nat :=
  (chain.find? fun place => (scopes.binding? place name).isSome).getD (chain.head?.getD 0)

/-- Change the binding of a name that the chain sees, or make one in its innermost scope. -/
def assign (scopes : Scopes) (chain : Chain) (name : String) (value : Value) : Scopes :=
  scopes.define (scopes.owner chain name) name value

end Scopes

end SheetScript
