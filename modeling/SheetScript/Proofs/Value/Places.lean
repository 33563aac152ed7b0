import SheetScript.Proofs.Number.Binary
import SheetScript.Proofs.Value.References

/-!
# Places inside nested values

A list of positions leads through arrays and maps to a place inside a value.

* `Value.getAlong` reads the place.
* `Value.Replaced` says that a value is another one with that place replaced, and nothing else
  changed: an item of an array set, a map given an entry, and at the end of the way also an array
  made longer by one.
* `Value.replaced_of_put` is one level, `Value.Replaced.append` puts levels together, and
  `Value.Replaced.getAlong`: what has been put at a place is found there.

The position right behind an array is told by doubles, so the arrays on the way have to be shorter
than `2 ^ 53` (`Value.Countable`).
-/

namespace SheetScript.Value

variable {v old new mid element position : Value} {places front back : List Value} {i n : Nat}

/-! ## Indices -/

/-- A position is the number of an index. -/
def IsIndex (position : Value) (i : Nat) : Prop :=
  ∃ x, position = .number x ∧ Number.integer? x = some (i : Int)

theorem index?_eq_ok_iff : position.index? n = .ok i ↔ position.IsIndex i ∧ i < n := by
  unfold index? IsIndex
  cases position with
  | number x =>
    cases whole : Number.integer? x with
    | none => simp [whole]
    | some k =>
      simp only [Value.number.injEq, exists_eq_left', whole, Option.some.injEq]
      split_ifs with inside
      · simp only [Bool.and_eq_true, decide_eq_true_eq] at inside
        simp only [Except.ok.injEq]
        omega
      · simp only [Bool.and_eq_true, decide_eq_true_eq, not_and, not_lt] at inside
        simp only [false_iff]
        omega
  | _ => simp

/-- What a position gives by its index: the position is the number of one. -/
theorem exists_index_of_map {α : Type} {f : Nat → α} {a : α}
    (h : (position.index? n).map f = .ok a) : ∃ i, position.IsIndex i ∧ i < n ∧ f i = a := by
  cases found : position.index? n with
  | error e =>
    rw [found] at h
    nomatch h
  | ok i =>
    rw [found] at h
    obtain ⟨index, lt⟩ := index?_eq_ok_iff.1 found
    exact ⟨i, index, lt, Except.ok.inj h⟩

theorem isIndex_of_isNextIndex (small : n < 2 ^ 53) (next : position.isNextIndex n = true) :
    position.IsIndex n := by
  unfold isNextIndex at next
  split at next
  next x =>
    exact ⟨x, rfl, (Number.integer?_eq_of_beq next).trans (Number.integer?_ofNat small)⟩
  next => exact absurd next Bool.false_ne_true

/-- Two positions lead to the same place of every container. -/
structure SamePlace (position position' : Value) : Prop where
  get : ∀ container : Value, container.get position = container.get position'
  put : ∀ container element : Value,
    container.put position element = container.put position' element

theorem SamePlace.refl (position : Value) : position.SamePlace position :=
  ⟨fun _ => rfl, fun _ _ => rfl⟩

/-! ## Reading a place -/

/-- The value at a place inside a value. -/
def getAlong : List Value → Value → Except ScriptError Value
  | [], v => .ok v
  | place :: rest, v => do getAlong rest (← v.get place)

theorem getAlong_singleton (position v : Value) : v.getAlong [position] = v.get position := by
  rw [getAlong]
  exact bind_pure (v.get position)

theorem getAlong_append (front back : List Value) (v : Value) :
    v.getAlong (front ++ back) = (v.getAlong front).bind (getAlong back) := by
  induction front generalizing v with
  | nil => rfl
  | cons place rest ih =>
    rw [List.cons_append, getAlong, getAlong]
    cases v.get place with
    | error e => rfl
    | ok inner => exact ih inner

theorem getAlong_concat (reads : old.getAlong front = .ok mid) (position : Value) :
    old.getAlong (front ++ [position]) = mid.get position := by
  rw [getAlong_append, reads]
  exact getAlong_singleton position mid

/-! ## Replacing a place -/

/-- The second value is the first one with `v` put at a place, and otherwise the same. -/
inductive Replaced (v : Value) : List Value → Value → Value → Prop
  /-- The place is the value itself. -/
  | here (old : Value) : Replaced v [] old v
  /-- The place is in an item of an array. -/
  | item {items : List Value} {position : Value} {i : Nat} {rest : List Value} {new : Value}
      (index : position.IsIndex i) (lt : i < items.length) (inner : Replaced v rest items[i] new) :
      Replaced v (position :: rest) (.array items) (.array (items.set i new))
  /-- The place is right behind an array. -/
  | behind {items : List Value} {position : Value} (index : position.IsIndex items.length) :
      Replaced v [position] (.array items) (.array (items ++ [v]))
  /-- The place is in an entry of a map; a new entry takes the place of `null`. -/
  | entry {entries : List (String × Value)} {position : Value} {rest : List Value} {new : Value}
      (inner : Replaced v rest ((Entries.find? entries position.display).getD .null) new) :
      Replaced v (position :: rest) (.map entries)
        (.map (Entries.insert entries position.display new))

theorem get_array (items : List Value) (index : position.IsIndex i) (lt : i < items.length) :
    (array items).get position = .ok items[i] := by
  have found : position.index? items.length = .ok i := index?_eq_ok_iff.2 ⟨index, lt⟩
  rw [get, found, Except.map, List.getD_eq_getElem _ _ lt]

/-- **What has been put at a place is found there.** -/
theorem Replaced.getAlong (h : Replaced v places old new) : new.getAlong places = .ok v := by
  induction h with
  | here old => rfl
  | @item items position i rest new index lt inner ih =>
    have lt' : i < (items.set i new).length := by rwa [List.length_set]
    rw [Value.getAlong, get_array _ index lt', List.getElem_set_self]
    exact ih
  | @behind items position index =>
    have lt : items.length < (items ++ [v]).length := by simp
    rw [Value.getAlong, get_array _ index lt, List.getElem_concat_length rfl]
    rfl
  | @entry entries position rest new inner ih =>
    rw [Value.getAlong, get, Entries.find?_insert_self]
    exact ih

/-- A place further in: the value at a place is replaced by one that has itself a place replaced. -/
theorem Replaced.append (outer : Replaced element front old new)
    (reads : old.getAlong front = .ok mid) (inner : Replaced v back mid element) :
    Replaced v (front ++ back) old new := by
  induction outer with
  | here old =>
    obtain rfl : old = mid := Except.ok.inj reads
    exact inner
  | item index lt _ ih =>
    rw [Value.getAlong, get_array _ index lt] at reads
    exact .item index lt (ih reads)
  | @behind items position index =>
    -- there is nothing behind an array to be read
    obtain ⟨_, found, -⟩ := Except.exists_of_bind_eq_ok reads
    obtain ⟨i, ⟨y, same, here⟩, lt, -⟩ := exists_index_of_map found
    obtain ⟨x, rfl, behind⟩ := index
    obtain rfl : x = y := Value.number.inj same
    rw [behind, Option.some.injEq] at here
    omega
  | entry _ ih =>
    rw [Value.getAlong, get] at reads
    exact .entry (ih reads)

/-- **One level.** To put an element into a container replaces its place, if the container is no
array that is too long to count. -/
theorem replaced_of_put (small : ∀ items, old = .array items → items.length < 2 ^ 53)
    (put : old.put position element = .ok new) : Replaced element [position] old new := by
  unfold Value.put at put
  split at put
  next items =>
    split_ifs at put with next
    · obtain rfl := Except.ok.inj put
      exact .behind (isIndex_of_isNextIndex (small items rfl) next)
    · obtain ⟨i, index, lt, rfl⟩ := exists_index_of_map put
      exact .item index lt (.here _)
  next entries =>
    obtain rfl := Except.ok.inj put
    exact .entry (.here _)
  next => nomatch put

/-- The arrays on the way to a place are short enough for doubles to tell their indices apart. -/
def Countable : List Value → Value → Prop
  | [], _ => True
  | place :: rest, v =>
    (∀ items, v = .array items → items.length < 2 ^ 53) ∧
      ∀ inner, v.get place = .ok inner → Countable rest inner

theorem Countable.cons (small : ∀ items, v = .array items → items.length < 2 ^ 53)
    (found : v.get position = .ok mid) (rest : mid.Countable places) :
    v.Countable (position :: places) := by
  refine ⟨small, fun inner same => ?_⟩
  obtain rfl : mid = inner := Except.ok.inj (found.symm.trans same)
  exact rest

theorem Countable.outer (h : old.Countable (front ++ [position])) : old.Countable front := by
  induction front generalizing old with
  | nil => trivial
  | cons place rest ih => exact ⟨h.1, fun inner found => ih (h.2 inner found)⟩

theorem Countable.last (h : old.Countable (front ++ [position]))
    (reads : old.getAlong front = .ok mid) :
    ∀ items, mid = .array items → items.length < 2 ^ 53 := by
  induction front generalizing old with
  | nil =>
    obtain rfl : old = mid := Except.ok.inj reads
    exact h.1
  | cons place rest ih =>
    obtain ⟨inner, found, further⟩ := Except.exists_of_bind_eq_ok reads
    exact ih (h.2 inner found) further

end SheetScript.Value
