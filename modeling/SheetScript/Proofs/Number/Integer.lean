import SheetScript.Proofs.Number.Binary

/-!
# Integers and doubles

A double that is an integer is told by that integer, but for the sign of zero, and each integer of
magnitude below `2 ^ 53` is a double.

* `Binary.ofFloat_injective`: a double is its sign, its mantissa and its exponent.
* `Binary.ofFloat_bounds`: the mantissa has 53 bits, or the exponent is the least one. So a whole
  magnitude has one mantissa and one exponent (`Binary.eq_of_wholePart_eq`).
* `integer?_ofInt`: the double of an integer is that integer.
* `beq_of_integer?`: doubles that are the same integer are equal.
-/

namespace SheetScript.Number

open Float.Model Float.Model.UnpackedFloat

namespace Binary

theorem isNegative_injective : Function.Injective isNegative := by
  rintro (_ | _) (_ | _) eq <;> first | rfl | cases eq

theorem ofUnpacked_injective : Function.Injective ofUnpacked := by
  intro u v eq
  cases u <;> cases v <;> simp_all [ofUnpacked, isNegative_injective.eq_iff] <;> omega

/-- **Doubles with the same parts are the same.** -/
theorem ofFloat_injective : Function.Injective ofFloat := by
  intro x y eq
  rw [ofFloat_eq, ofFloat_eq] at eq
  have bits := (unpack_inj_of_valid x.toModel.valid y.toModel.valid).1 (ofUnpacked_injective eq)
  exact Float.toBits_inj.1 (UInt64.toBitVec_inj.1 bits)

variable {negative negative' : Bool} {m m' : Nat} {e e' : Int}

/-- A mantissa and an exponent that a double has. -/
def Canonical (m : Nat) (e : Int) : Prop := m < 2 ^ 53 ∧ (2 ^ 52 ≤ m ∨ e = leastExponent)

theorem ofFloat_bounds {x : Float} (h : ofFloat x = .finite negative m e) : Canonical m e := by
  have fraction : x.toBits.toNat % Nat.pow 2 52 < 2 ^ 52 := Nat.mod_lt _ (by decide)
  unfold ofFloat ofBits at h
  dsimp only at h
  split_ifs at h
  · cases h
    exact ⟨by omega, .inr rfl⟩
  · cases h
    have base : Nat.pow 2 52 = 2 ^ 52 := rfl
    exact ⟨by omega, .inl (by omega)⟩

theorem wholePart_mul (whole : isWhole m e = true) :
    wholePart m e * 2 ^ (-e).toNat = m * 2 ^ e.toNat := by
  unfold wholePart
  split_ifs with up
  · have none : (-e).toNat = 0 := by omega
    rw [none, Nat.pow_zero, Nat.mul_one]
    rfl
  · have none : e.toNat = 0 := by omega
    have divides : m % 2 ^ (-e).toNat = 0 := by
      simpa [isWhole, up] using whole
    rw [none, Nat.pow_zero, Nat.mul_one]
    exact Nat.div_mul_cancel (Nat.dvd_of_mod_eq_zero divides)

theorem log2_mul_two_pow {n : Nat} (some : n ≠ 0) (k : Nat) : (n * 2 ^ k).log2 = n.log2 + k := by
  obtain ⟨low, high⟩ := (Nat.log2_eq_iff some).1 rfl
  refine (Nat.log2_eq_iff (by positivity)).2 ⟨?_, ?_⟩
  · rw [Nat.pow_add]
    exact Nat.mul_le_mul_right _ low
  · rw [Nat.add_right_comm, Nat.pow_add]
    exact Nat.mul_lt_mul_of_pos_right high (by positivity)

/-- The magnitude of a whole double tells its exponent. -/
theorem log2_wholePart (h : Canonical m e) (whole : isWhole m e = true) (some : wholePart m e ≠ 0) :
    ((wholePart m e).log2 : Int) = 52 + e := by
  have scaled := wholePart_mul whole
  have pos : m ≠ 0 := by
    rintro rfl
    rw [Nat.zero_mul] at scaled
    exact some ((Nat.mul_eq_zero.1 scaled).resolve_right (by positivity))
  have normal : 2 ^ 52 ≤ m := by
    obtain ⟨small, low | rfl⟩ := h
    · exact low
    · -- a magnitude below the least normal one is no integer
      have places : 52 ≤ (-leastExponent).toNat := by decide
      have none : leastExponent.toNat = 0 := rfl
      rw [none, Nat.pow_zero, Nat.mul_one] at scaled
      rw [← scaled]
      exact (Nat.pow_le_pow_right (by decide) places).trans
        (Nat.le_mul_of_pos_left _ (Nat.pos_of_ne_zero some))
  have log : m.log2 = 52 := (Nat.log2_eq_iff pos).2 ⟨normal, h.1⟩
  have logs := congrArg Nat.log2 scaled
  rw [log2_mul_two_pow some, log2_mul_two_pow pos, log] at logs
  omega

/-- **A whole magnitude has one mantissa and one exponent.** -/
theorem eq_of_wholePart_eq (h : Canonical m e) (h' : Canonical m' e') (whole : isWhole m e = true)
    (whole' : isWhole m' e' = true) (same : wholePart m e = wholePart m' e') :
    m = m' ∧ e = e' := by
  have scaled := wholePart_mul whole
  have scaled' := wholePart_mul whole'
  by_cases none : wholePart m e = 0
  · have zero : ∀ {m : Nat} {e : Int}, wholePart m e = 0 →
        wholePart m e * 2 ^ (-e).toNat = m * 2 ^ e.toNat → m = 0 := by
      intro m e none scaled
      rw [none, Nat.zero_mul] at scaled
      exact (Nat.mul_eq_zero.1 scaled.symm).resolve_right (by positivity)
    obtain rfl := zero none scaled
    obtain rfl := zero (same ▸ none) scaled'
    have least : ∀ {e : Int}, Canonical 0 e → e = leastExponent := fun h =>
      h.2.resolve_left (by decide)
    exact ⟨rfl, (least h).trans (least h').symm⟩
  · have log := log2_wholePart h whole none
    have log' := log2_wholePart h' whole' (same ▸ none)
    rw [same] at log
    obtain rfl : e = e' := by omega
    rw [same, scaled'] at scaled
    exact ⟨(Nat.mul_right_cancel (by positivity) scaled).symm, rfl⟩

end Binary

/-- A double that is an integer, taken apart. -/
theorem exists_parts {x : Float} {i : Int} (h : integer? x = some i) : ∃ negative m e,
    Binary.ofFloat x = .finite negative m e ∧ Binary.isWhole m e = true ∧
      i = if negative then -(Binary.wholePart m e : Int) else Binary.wholePart m e := by
  unfold integer? at h
  cases parts : Binary.ofFloat x with
  | finite negative m e =>
    rw [parts, Binary.integer?] at h
    obtain ⟨whole, value⟩ := Option.ite_none_right_eq_some.1 h
    exact ⟨negative, m, e, rfl, whole, (Option.some.inj value).symm⟩
  | _ =>
    rw [parts] at h
    cases h

theorem eq_zero_of_parts {x : Float} {negative : Bool} {m : Nat} {e : Int}
    (parts : Binary.ofFloat x = .finite negative m e) (whole : Binary.isWhole m e = true)
    (zero : Binary.wholePart m e = 0) : x = if negative then -0 else 0 := by
  have zeros : ∀ negative : Bool, Binary.ofFloat (if negative then -0 else 0) =
      .finite negative 0 Binary.leastExponent := by decide
  have none : Binary.wholePart 0 Binary.leastExponent = 0 := Nat.zero_div _
  obtain ⟨rfl, rfl⟩ := Binary.eq_of_wholePart_eq (Binary.ofFloat_bounds parts)
    (Binary.ofFloat_bounds (zeros negative)) whole (by decide +kernel) (zero.trans none.symm)
  exact Binary.ofFloat_injective (parts.trans (zeros negative).symm)

/-- **Doubles that are the same integer are equal.** -/
theorem beq_of_integer? {x y : Float} {i : Int} (hx : integer? x = some i)
    (hy : integer? y = some i) : (x == y) = true := by
  obtain ⟨s, m, e, parts, whole, rfl⟩ := exists_parts hx
  obtain ⟨s', m', e', parts', whole', value⟩ := exists_parts hy
  by_cases sign : s = s'
  · subst sign
    have same : Binary.wholePart m e = Binary.wholePart m' e' := by
      split_ifs at value <;> omega
    obtain ⟨rfl, rfl⟩ := Binary.eq_of_wholePart_eq (Binary.ofFloat_bounds parts)
      (Binary.ofFloat_bounds parts') whole whole' same
    obtain rfl := Binary.ofFloat_injective (parts.trans parts'.symm)
    have unordered : integer? Float.nan = none := by decide
    refine Float.beq_self_iff.2 ?_
    rintro rfl
    rw [unordered] at hx
    cases hx
  · -- an integer is its own negative when it is zero
    have none : Binary.wholePart m e = 0 ∧ Binary.wholePart m' e' = 0 := by
      cases s <;> cases s' <;> simp at sign value <;> omega
    have zeros : ∀ s s' : Bool,
        ((if s then -0 else 0 : Float) == (if s' then -0 else 0 : Float)) = true := by
      decide
    rw [eq_zero_of_parts parts whole none.1, eq_zero_of_parts parts' whole' none.2]
    exact zeros s s'

/-- A double that is an integer is finite. -/
theorem isFinite_of_integer? {x : Float} {i : Int} (h : integer? x = some i) :
    x.isFinite = true := by
  obtain ⟨negative, m, e, parts, -, -⟩ := exists_parts h
  rw [Binary.ofFloat_eq] at parts
  change x.toModel.unpack.isFinite = true
  cases unpacked : x.toModel.unpack with
  | zero | finite => rfl
  | infinity | notANumber =>
    rw [unpacked] at parts
    cases parts

/-! ## Integers as doubles -/

theorem Binary.integer?_negative (m : Nat) (e : Int) :
    (finite true m e).integer? = (finite false m e).integer?.map (- ·) := by
  cases whole : isWhole m e <;> simp [Binary.integer?, whole]

/-- **The double of an integer is that integer**, below `2 ^ 53`. -/
theorem integer?_ofInt {i : Int} (small : i.natAbs < 2 ^ 53) :
    integer? (Float.ofInt i) = some i := by
  cases i with
  | ofNat n => exact integer?_ofNat small
  | negSucc n =>
    obtain ⟨low, high⟩ := aligned_bounds n.succ_pos small
    obtain ⟨pos, unpacked⟩ := unpack_ofNat n.succ_pos small
    have negated : (Float.ofInt (.negSucc n)).toModel.unpack =
        .finite .negative (aligned (n + 1)) (-((52 - (n + 1).log2 : Nat) : Int)) pos := by
      change (Float.Model.pack (UnpackedFloat.neg (Float.ofNat (n + 1)).toModel.unpack)).unpack = _
      rw [unpacked]
      exact unpack_pack pos low high (by omega) (by omega)
    have count : integer? (Float.ofNat (n + 1)) = some ((n + 1 : Nat) : Int) := integer?_ofNat small
    rw [integer?, Binary.ofFloat_eq, unpacked] at count
    rw [integer?, Binary.ofFloat_eq, negated]
    exact (Binary.integer?_negative _ _).trans (congrArg (Option.map (- ·)) count)

end SheetScript.Number
