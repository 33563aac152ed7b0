import Mathlib.Data.List.Nodup
import SheetScript.Sheet.Staging

/-!
# The frame of a sheet

Writing to a sheet changes values and nothing else: the attributes stay, each with its id and its
name. When no two attributes have one name, the names tell the values apart.

* `Sheet.SameFrame` relates sheets that differ in values only; every way to write keeps the frame.
* `Sheet.value?_setById` and `Sheet.value?_setByName` say what an attribute holds after a write.
* `Sheet.SameFrame.ext`: sheets of one frame that hold the same values are equal.
-/

namespace SheetScript

/-- An attribute without its value. -/
def Attribute.label (a : Attribute) : String × String := (a.id, a.name)

namespace Sheet

variable {s t u : Sheet}

/-- Two sheets have the same attributes, whatever their values. -/
structure SameFrame (s t : Sheet) : Prop where
  character : s.characterId = t.characterId
  ruleset : s.rulesetId = t.rulesetId
  items : s.items = t.items
  labels : s.attributes.map Attribute.label = t.attributes.map Attribute.label

theorem SameFrame.refl (s : Sheet) : SameFrame s s := ⟨rfl, rfl, rfl, rfl⟩

theorem SameFrame.symm (h : SameFrame s t) : SameFrame t s :=
  ⟨h.character.symm, h.ruleset.symm, h.items.symm, h.labels.symm⟩

theorem SameFrame.trans (h : SameFrame s t) (h' : SameFrame t u) : SameFrame s u :=
  ⟨h.character.trans h'.character, h.ruleset.trans h'.ruleset, h.items.trans h'.items,
    h.labels.trans h'.labels⟩

/-- The names of the attributes. -/
def names (s : Sheet) : List String := s.attributes.map (·.name)

/-- The name of the attribute of that id. -/
def nameOf? (s : Sheet) (id : String) : Option String := (s.byId? id).map (·.name)

/-- The value of the first attribute of that name. -/
def value? (s : Sheet) (name : String) : Option Json := (s.byName? name).map (·.value)

theorem SameFrame.names_eq (h : SameFrame s t) : s.names = t.names := by
  have eq := congrArg (List.map Prod.snd) h.labels
  rw [List.map_map, List.map_map] at eq
  exact eq

theorem SameFrame.nameOf?_eq (h : SameFrame s t) (id : String) : s.nameOf? id = t.nameOf? id := by
  have by_labels : ∀ s : Sheet, s.nameOf? id =
      ((s.attributes.map Attribute.label).find? fun label => label.1 == id).map Prod.snd :=
    fun s => by
      rw [List.find?_map, Option.map_map]
      rfl
  rw [by_labels s, by_labels t, h.labels]

theorem id_of_byId? {id : String} {a : Attribute} (h : s.byId? id = some a) : a.id = id := by
  have test := List.find?_some h
  exact beq_iff_eq.1 test

/-! ## Writing -/

theorem map_label_setFirst (test : Attribute → Bool) (value : Json) (attributes : List Attribute) :
    (setFirst test value attributes).map Attribute.label = attributes.map Attribute.label := by
  induction attributes with
  | nil => rfl
  | cons a rest ih =>
    rw [setFirst]
    split_ifs
    · rfl
    · rw [List.map_cons, List.map_cons, ih]

theorem sameFrame_setById (s : Sheet) (id : String) (value : Json) :
    SameFrame s (s.setById id value) := ⟨rfl, rfl, rfl, (map_label_setFirst _ _ _).symm⟩

theorem sameFrame_setByName (s : Sheet) (name : String) (value : Json) :
    SameFrame s (s.setByName name value) := ⟨rfl, rfl, rfl, (map_label_setFirst _ _ _).symm⟩

theorem sameFrame_commit (s : Sheet) (writes : Entries Json) : SameFrame s (s.commit writes) := by
  induction writes generalizing s with
  | nil => exact .refl s
  | cons write rest ih => exact (sameFrame_setById s write.1 write.2).trans (ih _)

/-! ## Values -/

theorem value?_setByName (s : Sheet) (name : String) (value : Json) (n : String) :
    (s.setByName name value).value? n =
      if n = name then (s.value? n).map fun _ => value else s.value? n := by
  unfold setByName value? byName?
  dsimp only
  induction s.attributes with
  | nil => simp [setFirst]
  | cons a rest ih =>
    rw [setFirst]
    by_cases ha : a.name = name
    · by_cases h : n = name
      · simp [ha, h]
      · simp [ha, h, Ne.symm h]
    · by_cases h : a.name = n
      · have apart : n ≠ name := h ▸ ha
        simp [h, apart]
      · simpa [ha, h] using ih

theorem value?_setById (distinct : s.names.Nodup) (id : String) (value : Json) (n : String) :
    (s.setById id value).value? n =
      if s.nameOf? id = some n then some value else s.value? n := by
  unfold setById value? byName? nameOf? byId?
  dsimp only
  unfold names at distinct
  generalize s.attributes = attributes at distinct
  induction attributes with
  | nil => simp [setFirst]
  | cons a rest ih =>
    rw [List.map_cons, List.nodup_cons] at distinct
    rw [setFirst]
    by_cases ha : a.id = id
    · by_cases h : a.name = n
      · simp [ha, h]
      · simp [ha, h]
    · by_cases h : a.name = n
      · -- a later attribute has another name
        have later : ∀ b, rest.find? (fun b => b.id == id) = some b → b.name ≠ n := by
          intro b found hb
          refine distinct.1 (List.mem_map.2 ⟨b, List.mem_of_find?_eq_some found, ?_⟩)
          rw [hb, h]
        simpa [ha, h] using fun b found hb => absurd hb (later b found)
      · simpa [ha, h] using ih distinct.2

theorem eq_of_labels_of_values {l l' : List Attribute}
    (labels : l.map Attribute.label = l'.map Attribute.label) (distinct : (l.map (·.name)).Nodup)
    (values : ∀ n, (l.find? (·.name == n)).map (·.value) = (l'.find? (·.name == n)).map (·.value)) :
    l = l' := by
  induction l generalizing l' with
  | nil => exact (List.map_eq_nil_iff.1 labels.symm).symm
  | cons a rest ih =>
    cases l' with
    | nil => simp at labels
    | cons b rest' =>
      rw [List.map_cons, List.map_cons, List.cons.injEq] at labels
      obtain ⟨label, labels⟩ := labels
      obtain ⟨ids, names⟩ := Prod.mk.inj label
      rw [List.map_cons, List.nodup_cons] at distinct
      have first : a = b := by
        have value := values a.name
        rw [List.find?_cons_of_pos (by simp), List.find?_cons_of_pos (by simp [names])] at value
        have value : a.value = b.value := Option.some.inj value
        cases a
        cases b
        simp_all
      subst first
      refine congrArg _ (ih labels distinct.2 fun n => ?_)
      by_cases hn : a.name = n
      · -- the first attribute is the only one of its name
        have absent : ∀ l : List Attribute, l.map Attribute.label = rest.map Attribute.label →
            l.find? (fun b => b.name == n) = none := fun l same => by
          refine List.find?_eq_none.2 fun b hb eq => distinct.1 ?_
          have names := congrArg (List.map Prod.snd) same
          rw [List.map_map, List.map_map] at names
          have mem : b.name ∈ l.map (Prod.snd ∘ Attribute.label) := List.mem_map.2 ⟨b, hb, rfl⟩
          rw [names] at mem
          rw [hn, ← beq_iff_eq.1 eq]
          exact mem
        rw [absent rest rfl, absent rest' labels.symm]
      · simpa [hn] using values n

/-- **A frame and its values determine a sheet**, when no two attributes have one name. -/
theorem SameFrame.ext (h : SameFrame s t) (distinct : s.names.Nodup)
    (values : ∀ n, s.value? n = t.value? n) : s = t := by
  have attributes := eq_of_labels_of_values h.labels distinct values
  obtain ⟨character, ruleset, items, -⟩ := h
  cases s
  cases t
  simp_all

end Sheet

end SheetScript
