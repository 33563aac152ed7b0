import SheetScript.Proofs.Entries
import SheetScript.Proofs.Sheet.Frame

/-!
# Writes that wait

The writes that wait at a desk lie over its sheet: a read sees the last of them, or else the sheet.
To commit them and then write is to write and then commit.

* `Sheet.valueOf?_commit` says what an attribute holds after a commit, and `Sheet.commit_insert` what
  one more write comes to.
* `Desk.settled` is the desk whose writes have been committed, and which holds none back from then
  on. `Desk.settled_write` and `Desk.read?_settled`: it keeps up with a staging desk, write by write,
  and reads the same.
-/

namespace SheetScript

namespace Sheet

variable {s t : Sheet} {id other : String} {writes : Entries Json}

/-- The value of the attribute of that id. -/
def valueOf? (s : Sheet) (id : String) : Option Json := (s.byId? id).map (·.value)

/-! ## Two writes -/

theorem setFirst_self (test : Attribute → Bool) (old new : Json)
    (keeps : ∀ a value, test { a with value := value } = test a) (attributes : List Attribute) :
    setFirst test new (setFirst test old attributes) = setFirst test new attributes := by
  induction attributes with
  | nil => rfl
  | cons a rest ih =>
    by_cases h : test a = true
    · simp [setFirst, h, keeps]
    · simp [setFirst, h, ih]

theorem setFirst_comm {p q : Attribute → Bool} (apart : ∀ a, p a = true → q a = false)
    (keepsP : ∀ a value, p { a with value := value } = p a)
    (keepsQ : ∀ a value, q { a with value := value } = q a) (v w : Json)
    (attributes : List Attribute) :
    setFirst p v (setFirst q w attributes) = setFirst q w (setFirst p v attributes) := by
  induction attributes with
  | nil => rfl
  | cons a rest ih =>
    by_cases hp : p a = true
    · simp [setFirst, hp, keepsQ, apart a hp]
    · by_cases hq : q a = true
      · simp [setFirst, hp, hq, keepsP]
      · simp [setFirst, hp, hq, ih]

/-- The last write to an attribute counts. -/
theorem setById_setById (s : Sheet) (id : String) (old new : Json) :
    (s.setById id old).setById id new = s.setById id new := by
  unfold setById
  rw [setFirst_self _ _ _ fun _ _ => rfl]

/-- Writes to different attributes do not see each other. -/
theorem setById_comm (h : id ≠ other) (s : Sheet) (v w : Json) :
    (s.setById id v).setById other w = (s.setById other w).setById id v := by
  have apart : ∀ a : Attribute, (a.id == other) = true → (a.id == id) = false := fun a eq =>
    beq_eq_false_iff_ne.2 fun eq' => h (eq'.symm.trans (beq_iff_eq.1 eq))
  unfold setById
  rw [setFirst_comm apart (fun _ _ => rfl) fun _ _ => rfl]

/-! ## A commit -/

theorem commit_cons (s : Sheet) (write : String × Json) (writes : Entries Json) :
    s.commit (write :: writes) = (s.setById write.1 write.2).commit writes := rfl

/-- A write to an attribute that no waiting write is for may come before or after them. -/
theorem commit_setById (h : id ∉ Entries.keys writes) (s : Sheet) (value : Json) :
    (s.setById id value).commit writes = (s.commit writes).setById id value := by
  induction writes generalizing s with
  | nil => rfl
  | cons write rest ih =>
    obtain ⟨first, later⟩ := Entries.not_mem_keys_cons.1 h
    rw [commit_cons, commit_cons, setById_comm first, ih later]

/-- **To stage a write is to write after the commit.** -/
theorem commit_insert (sorted : Entries.Sorted writes) (s : Sheet) (id : String) (value : Json) :
    s.commit (Entries.insert writes id value) = (s.commit writes).setById id value := by
  induction writes generalizing s with
  | nil => rfl
  | cons write rest ih =>
    obtain ⟨key, old⟩ := write
    obtain ⟨first, rest_sorted⟩ := List.pairwise_cons.1 sorted
    rw [Entries.insert]
    split_ifs with same before
    · obtain rfl := beq_iff_eq.1 same
      have later : key ∉ Entries.keys rest := fun mem => (first key mem).ne rfl
      rw [commit_cons, commit_cons, ← commit_setById later, setById_setById]
    · have absent : id ∉ Entries.keys ((key, old) :: rest) := by
        refine Entries.not_mem_keys_cons.2 ⟨before.ne, fun mem => ?_⟩
        exact (before.trans (first id mem)).ne rfl
      rw [commit_cons, commit_setById absent]
    · rw [commit_cons, commit_cons, ih rest_sorted]

theorem byId?_setById (s : Sheet) (id : String) (value : Json) (i : String) :
    (s.setById id value).byId? i =
      if i = id then (s.byId? i).map fun a => { a with value := value } else s.byId? i := by
  unfold setById byId?
  dsimp only
  induction s.attributes with
  | nil => simp [setFirst]
  | cons a rest ih =>
    by_cases ha : a.id = id
    · by_cases h : i = id
      · simp [setFirst, ha, h]
      · simp [setFirst, ha, h, Ne.symm h]
    · by_cases h : a.id = i
      · have apart : i ≠ id := h ▸ ha
        simp [setFirst, h, apart]
      · simpa [setFirst, ha, h] using ih

theorem valueOf?_setById (s : Sheet) (id : String) (value : Json) (i : String) :
    (s.setById id value).valueOf? i =
      if i = id then (s.valueOf? i).map fun _ => value else s.valueOf? i := by
  unfold valueOf?
  rw [byId?_setById]
  split_ifs
  · rw [Option.map_map, Option.map_map]
    rfl
  · rfl

theorem byId?_commit_of_absent (h : id ∉ Entries.keys writes) (s : Sheet) :
    (s.commit writes).byId? id = s.byId? id := by
  induction writes generalizing s with
  | nil => rfl
  | cons write rest ih =>
    obtain ⟨first, later⟩ := Entries.not_mem_keys_cons.1 h
    rw [commit_cons, ih later, byId?_setById, if_neg first]

theorem isSome_byId?_of_byName? {name : String} {a : Attribute} (h : s.byName? name = some a) :
    (s.byId? a.id).isSome :=
  List.find?_isSome.2 ⟨a, List.mem_of_find?_eq_some h, beq_self_eq_true a.id⟩

theorem SameFrame.isSome_byId? (h : SameFrame s t) (id : String) :
    (s.byId? id).isSome = (t.byId? id).isSome := by
  have eq := congrArg Option.isSome (h.nameOf?_eq id)
  unfold nameOf? at eq
  rwa [Option.isSome_map, Option.isSome_map] at eq

/-- A commit leaves the last of the writes to an attribute, or else its value. -/
theorem valueOf?_commit (sorted : Entries.Sorted writes) (known : (s.byId? id).isSome) :
    (s.commit writes).valueOf? id = (Entries.find? writes id).or (s.valueOf? id) := by
  induction writes generalizing s with
  | nil => rfl
  | cons write rest ih =>
    obtain ⟨key, new⟩ := write
    obtain ⟨first, rest_sorted⟩ := List.pairwise_cons.1 sorted
    rw [commit_cons, Entries.find?]
    by_cases h : key = id
    · subst h
      have later : key ∉ Entries.keys rest := fun mem => (first key mem).ne rfl
      obtain ⟨a, found⟩ := Option.isSome_iff_exists.1 known
      rw [valueOf?, byId?_commit_of_absent later, byId?_setById, if_pos rfl, found,
        if_pos (beq_self_eq_true key)]
      rfl
    · have frame := sameFrame_setById s key new
      rw [ih rest_sorted ((frame.isSome_byId? id).symm.trans known), valueOf?_setById,
        if_neg (Ne.symm h), if_neg (fun eq => h (beq_iff_eq.1 eq))]

theorem SameFrame.label_byName? (h : SameFrame s t) (name : String) :
    (s.byName? name).map Attribute.label = (t.byName? name).map Attribute.label := by
  have by_labels : ∀ s : Sheet, (s.byName? name).map Attribute.label =
      (s.attributes.map Attribute.label).find? fun label => label.2 == name :=
    fun s => by
      rw [List.find?_map]
      rfl
  rw [by_labels s, by_labels t, h.labels]

theorem SameFrame.hasItem_eq (h : SameFrame s t) (name : String) : s.hasItem name = t.hasItem name := by
  rw [hasItem, hasItem, h.items]

end Sheet

/-! ## Desks -/

namespace Desk

variable {d : Desk} {sheet : Sheet}

/-- The desk at which the waiting writes have been committed, and none waits any more. -/
def settled (d : Desk) : Desk := { sheet := d.sheet.commit d.writes, policy := .direct }

/-- A desk lets its writes to a sheet wait. -/
structure Staging (sheet : Sheet) (d : Desk) : Prop where
  sheet_eq : d.sheet = sheet
  policy : d.policy = .staged
  sorted : Entries.Sorted d.writes

theorem staging_new (sheet : Sheet) : Staging sheet { sheet := sheet } := ⟨rfl, rfl, .nil⟩

/-- A write waits too, and leaves the sheet as it is. -/
theorem Staging.write (h : d.Staging sheet) (id : String) (value : Json) :
    (d.write id value).Staging sheet := by
  unfold Desk.write
  rw [h.policy]
  exact ⟨h.sheet_eq, rfl, h.sorted.insert id value⟩

/-- A write that waits is, in the end, a write at once. -/
theorem Staging.settled_write (h : d.Staging sheet) (id : String) (value : Json) :
    (d.write id value).settled = d.settled.write id value := by
  unfold Desk.write
  rw [h.policy]
  simp only [settled, Sheet.commit_insert h.sorted]

/-- A settled desk reads its sheet. -/
theorem read?_of_settled (d : Desk) (id : String) :
    d.settled.read? id = d.settled.sheet.valueOf? id := rfl

/-- What a run reads is what the sheet will hold. -/
theorem Staging.read?_settled (h : d.Staging sheet) {id : String} (known : (sheet.byId? id).isSome) :
    d.settled.read? id = d.read? id := by
  have committed := Sheet.valueOf?_commit h.sorted (h.sheet_eq ▸ known)
  rw [read?_of_settled]
  refine committed.trans ?_
  rw [read?]
  cases Entries.find? d.writes id with
  | none => rfl
  | some value => rfl

end Desk

end SheetScript
