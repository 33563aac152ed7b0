/-!
# Sorted entries

A finite map from texts, kept as a list of pairs in the order of the keys, each key once. Keys are
compared by their code points. The list form lets a type of values hold a map of values.

* `find?`, `insert` and `erase` look a key up, set it and drop it.
* `ofList` builds a map from pairs in any order; the last pair of a key wins.
* `Names` is the same for a set of texts.
-/

namespace SheetScript

/-- Pairs sorted by key, each key once. -/
abbrev Entries (α : Type) := List (String × α)

namespace Entries

variable {α β : Type}

/-- What the key is mapped to. -/
def find? (entries : Entries α) (key : String) : Option α :=
  match entries with
  | [] => none
  | (k, v) :: rest => if k == key then some v else find? rest key

/-- Whether the key is mapped. -/
def contains (entries : Entries α) (key : String) : Bool := (find? entries key).isSome

/-- Map the key to the value. -/
def insert (entries : Entries α) (key : String) (value : α) : Entries α :=
  match entries with
  | [] => [(key, value)]
  | (k, v) :: rest =>
    if k == key then (key, value) :: rest
    else if key < k then (key, value) :: (k, v) :: rest
    else (k, v) :: insert rest key value

/-- Map the key to nothing. -/
def erase (entries : Entries α) (key : String) : Entries α :=
  entries.filter fun entry => entry.1 != key

/-- The keys, in order. -/
def keys (entries : Entries α) : List String := entries.map Prod.fst

/-- The values, in the order of their keys. -/
def values (entries : Entries α) : List α := entries.map Prod.snd

/-- The map of the pairs; the last pair of a key wins. -/
def ofList (pairs : List (String × α)) : Entries α :=
  pairs.foldl (fun entries pair => insert entries pair.1 pair.2) []

end Entries

/-- Texts in order, each once. -/
abbrev Names := List String

namespace Names

/-- Add a text. -/
def insert (names : Names) (name : String) : Names :=
  match names with
  | [] => [name]
  | n :: rest =>
    if n == name then n :: rest
    else if name < n then name :: n :: rest
    else n :: insert rest name

/-- Drop a text. -/
def erase (names : Names) (name : String) : Names := names.filter (· != name)

/-- The texts of a list, in order and each once. -/
def ofList (names : List String) : Names := names.foldl insert []

end Names

end SheetScript
