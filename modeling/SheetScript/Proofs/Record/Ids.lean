import Mathlib.Data.List.Nodup
import SheetScript.Proofs.Entries
import SheetScript.Record.Report

/-!
# Ids that never collide

A source counts for each stem on its own, and what it hands out is only a text. So two calls get
different ids because of how a stem and its number are joined: a number has no dash, and an id comes
apart at its last dash, whatever dashes and digits its stem has.

* `IdSource.idText_injective2`: an id tells its stem and its number.
* `IdSource.Issued` are the ids that a source has handed out. The next one is none of them
  (`IdSource.not_issued_next`), and is one of them afterwards (`IdSource.issued_next_iff`).
* `IdSource.handOut` hands out ids for any stems, one after another; `IdSource.handOut_eq` says
  which, and `IdSource.nodup_handOut` that none comes twice.
-/

namespace SheetScript

/-! ## Apart at the last dash -/

section

variable {α : Type} {a : α} {front front' back back' : List α}

theorem eq_nil_of_cons_eq_append_cons (last : a ∉ back) (h : a :: back = front ++ a :: back') :
    front = [] := by
  cases front with
  | nil => rfl
  | cons b front =>
    obtain ⟨-, rfl⟩ := List.cons.inj h
    exact absurd (List.mem_append_right front List.mem_cons_self) last

/-- A list comes apart at the last occurrence of an element in one way. -/
theorem append_cons_inj_of_last (last : a ∉ back) (last' : a ∉ back')
    (h : front ++ a :: back = front' ++ a :: back') : front = front' ∧ back = back' := by
  rcases List.append_eq_append_iff.1 h with ⟨more, rfl, rest⟩ | ⟨more, rfl, rest⟩
  · obtain rfl := eq_nil_of_cons_eq_append_cons last rest
    exact ⟨(List.append_nil front).symm, (List.cons.inj rest).2⟩
  · obtain rfl := eq_nil_of_cons_eq_append_cons last' rest
    exact ⟨List.append_nil front', (List.cons.inj rest).2.symm⟩

end

namespace Number

theorem integerText_natCast (n : Nat) : integerText n = toString n :=
  Nat.toString_eq_ofList_toDigits.symm

theorem toList_integerText_natCast (n : Nat) : (integerText n).toList = Nat.toDigits 10 n := by
  rw [integerText_natCast, Nat.toString_eq_repr, Nat.toList_repr]

theorem integerText_natCast_injective : Function.Injective fun n : Nat => integerText n := by
  intro n n' same
  have digits := congrArg String.toList same
  rw [toList_integerText_natCast, toList_integerText_natCast] at digits
  calc
    n = Nat.ofDigitChars 10 (Nat.toDigits 10 n) 0 := Nat.ofDigitChars_ten_toDigits.symm
    _ = Nat.ofDigitChars 10 (Nat.toDigits 10 n') 0 := by rw [digits]
    _ = n' := Nat.ofDigitChars_ten_toDigits

/-- The text of a natural number has no sign. -/
theorem dash_not_mem_integerText (n : Nat) : '-' ∉ (integerText n).toList := by
  rw [toList_integerText_natCast]
  intro mem
  have digit : '-'.isDigit = true := Nat.isDigit_of_mem_toDigits (by decide) (by decide) mem
  exact absurd digit (by decide)

end Number

namespace IdSource

variable {s : IdSource} {stem id : String} {stems : List String}

theorem toList_idText (stem : String) (n : Nat) :
    (idText stem n).toList = stem.toList ++ '-' :: (Number.integerText n).toList := by
  rw [idText, String.toList_append, String.toList_append, List.append_assoc]
  rfl

/-- **An id tells its stem and its number.** -/
theorem idText_injective2 : Function.Injective2 idText := by
  intro stem stem' n n' same
  have parts := congrArg String.toList same
  rw [toList_idText, toList_idText] at parts
  obtain ⟨before, behind⟩ := append_cons_inj_of_last (Number.dash_not_mem_integerText n)
    (Number.dash_not_mem_integerText n') parts
  exact ⟨String.toList_inj.1 before,
    Number.integerText_natCast_injective (String.toList_inj.1 behind)⟩

/-! ## One call -/

theorem count_fresh (stem : String) : count {} stem = 0 := rfl

theorem next_id (s : IdSource) (stem : String) :
    (s.next stem).1 = idText stem (s.count stem + 1) := rfl

theorem issued_next (s : IdSource) (stem : String) : (s.next stem).2.issued = s.issued + 1 := rfl

/-- A call counts for its stem only. -/
theorem count_next (s : IdSource) (stem other : String) :
    (s.next stem).2.count other = s.count other + if stem == other then 1 else 0 := by
  rw [next, count, Entries.find?_insert]
  by_cases same : other = stem
  · subst other
    rw [if_pos rfl, if_pos (beq_self_eq_true stem)]
    rfl
  · rw [if_neg same, if_neg fun eq => same (beq_iff_eq.1 eq).symm]
    rfl

/-- A source has handed out an id: its number is one that its stem has come to. -/
def Issued (s : IdSource) (id : String) : Prop :=
  ∃ stem n, 0 < n ∧ n ≤ s.count stem ∧ id = idText stem n

/-- The next id is a new one. -/
theorem not_issued_next (s : IdSource) (stem : String) : ¬s.Issued (s.next stem).1 := by
  rintro ⟨stem', n, -, le, same⟩
  obtain ⟨rfl, rfl⟩ := idText_injective2 same
  omega

/-- A call hands out one id, and takes none back. -/
theorem issued_next_iff : (s.next stem).2.Issued id ↔ id = (s.next stem).1 ∨ s.Issued id := by
  constructor
  · rintro ⟨stem', n, pos, le, rfl⟩
    rw [count_next] at le
    by_cases old : n ≤ s.count stem'
    · exact .inr ⟨stem', n, pos, old, rfl⟩
    · -- only the stem of the call has come to another number
      split_ifs at le with same
      · obtain rfl := beq_iff_eq.1 same
        obtain rfl : n = s.count stem + 1 := by omega
        exact .inl rfl
      · omega
  · rintro (rfl | ⟨stem', n, pos, le, rfl⟩)
    · exact ⟨stem, s.count stem + 1, by omega, by simp [count_next], rfl⟩
    · exact ⟨stem', n, pos, by rw [count_next]; omega, rfl⟩

/-! ## Call after call -/

/-- Hand out ids for stems, one after another. -/
def handOut (s : IdSource) : List String → List String × IdSource
  | [] => ([], s)
  | stem :: rest =>
    let (id, t) := s.next stem
    let (ids, u) := t.handOut rest
    (id :: ids, u)

theorem handOut_cons (s : IdSource) (stem : String) (rest : List String) :
    s.handOut (stem :: rest) = ((s.next stem).1 :: ((s.next stem).2.handOut rest).1,
      ((s.next stem).2.handOut rest).2) := rfl

theorem handOut_append (s : IdSource) (front back : List String) :
    s.handOut (front ++ back) = ((s.handOut front).1 ++ ((s.handOut front).2.handOut back).1,
      ((s.handOut front).2.handOut back).2) := by
  induction front generalizing s with
  | nil => rfl
  | cons stem rest ih =>
    rw [List.cons_append, handOut_cons, ih, handOut_cons]
    rfl

theorem issued_handOut (s : IdSource) (stems : List String) :
    (s.handOut stems).2.issued = s.issued + stems.length := by
  induction stems generalizing s with
  | nil => rfl
  | cons stem rest ih =>
    rw [handOut_cons, ih, issued_next, List.length_cons]
    omega

/-- Each stem comes to as many numbers more as there are calls with it. -/
theorem count_handOut (s : IdSource) (stems : List String) (stem : String) :
    (s.handOut stems).2.count stem = s.count stem + stems.count stem := by
  induction stems generalizing s with
  | nil => rfl
  | cons first rest ih =>
    rw [handOut_cons, ih, count_next, List.count_cons]
    omega

/-- **Each call gets the number that its stem comes to with it.** -/
theorem handOut_eq (s : IdSource) (stems : List String) :
    (s.handOut stems).1 = stems.mapIdx fun i stem =>
      idText stem (s.count stem + (stems.take (i + 1)).count stem) := by
  induction stems generalizing s with
  | nil => rfl
  | cons first rest ih =>
    rw [handOut_cons, ih, List.mapIdx_cons]
    refine congrArg₂ List.cons ?_ ?_
    · simp [next_id]
    · refine congrArg (List.mapIdx · rest) (funext fun i => funext fun stem => ?_)
      rw [count_next, List.take_succ_cons, List.count_cons, Nat.add_right_comm, Nat.add_assoc]

/-- Nothing handed out later has been handed out already. -/
theorem not_issued_of_mem_handOut (h : id ∈ (s.handOut stems).1) : ¬s.Issued id := by
  induction stems generalizing s with
  | nil => exact absurd h List.not_mem_nil
  | cons stem rest ih =>
    rcases List.mem_cons.1 h with rfl | later
    · exact s.not_issued_next stem
    · exact fun old => ih later (issued_next_iff.2 (.inr old))

/-- **No id comes twice.** -/
theorem nodup_handOut (s : IdSource) (stems : List String) : (s.handOut stems).1.Nodup := by
  induction stems generalizing s with
  | nil => exact List.nodup_nil
  | cons stem rest ih =>
    have issued : (s.next stem).2.Issued (s.next stem).1 := issued_next_iff.2 (.inl rfl)
    exact List.nodup_cons.2 ⟨fun later => not_issued_of_mem_handOut later issued, ih _⟩

/-- **Ids never collide**, whatever the stems are. From a fresh source no id comes twice; a call
gets its stem, a dash and the number of the calls with that stem so far; and all calls are counted.
The counter of a stem counts the calls with it, so 64 bits are enough for fewer than `2 ^ 64`
calls. -/
theorem handOut_fresh (stems : List String) :
    (handOut {} stems).1.Nodup ∧
    (handOut {} stems).1 = (stems.mapIdx fun i stem =>
      stem ++ "-" ++ toString ((stems.take (i + 1)).count stem)) ∧
    (handOut {} stems).2.issued = stems.length ∧
    ∀ stem, (handOut {} stems).2.count stem = stems.count stem := by
  refine ⟨nodup_handOut {} stems, ?_, ?_, fun stem => ?_⟩
  · rw [handOut_eq]
    refine congrArg (List.mapIdx · stems) (funext fun i => funext fun stem => ?_)
    rw [count_fresh, Nat.zero_add, idText, Number.integerText_natCast]
  · rw [issued_handOut]
    exact Nat.zero_add _
  · rw [count_handOut, count_fresh, Nat.zero_add]

/-- Stems with dashes and digits. -/
example : (handOut {} ["err", "err-1", "err", "err-", "err-1"]).1 =
    ["err-1", "err-1-1", "err-2", "err--1", "err-1-2"] := by decide

end IdSource

end SheetScript
