import Mathlib
import SheetScript.Number.Binary

/-!
# Doubles that are integers

* `Binary.ofFloat_eq`: taking a double apart by its bits gives its sign, mantissa and exponent.
* `integer?_ofNat`: the double of a count below `2 ^ 53` is that count. From there on doubles leave
  integers out.
* `integer?_eq_of_beq`: equal doubles are the same integer, though the two zeros differ.
-/

namespace SheetScript.Number

open Float.Model Float.Model.UnpackedFloat

namespace Binary

/-- Whether a sign is the one of the negative numbers. -/
def isNegative : Sign → Bool
  | .negative => true
  | .positive => false

/-- A double in terms of its format. -/
def ofUnpacked : UnpackedFloat → Binary
  | .notANumber => .notANumber
  | .infinity sign => .infinite (isNegative sign)
  | .zero sign => .finite (isNegative sign) 0 leastExponent
  | .finite sign mantissa exponent _ => .finite (isNegative sign) mantissa exponent

theorem isNegative_ofBitVec (b : BitVec 1) : isNegative (Sign.ofBitVec b) = (b.toNat == 1) := by
  revert b
  decide

/-- The bits of a double, read one by one, are those of its format. -/
theorem ofBits_eq (b : BitVec 64) : ofBits b.toNat = ofUnpacked (unpack .binary64 b) := by
  have sign : (@unpackSign .binary64 b).toNat = b.toNat / Nat.pow 2 63 % 2 := by
    simp [unpackSign, BitVec.extractLsb_toNat, Nat.shiftRight_eq_div_pow]
  have biased : (@unpackExponent .binary64 b).toNat =
      b.toNat / Nat.pow 2 52 % Nat.pow 2 11 := by
    simp [unpackExponent, BitVec.extractLsb_toNat, Nat.shiftRight_eq_div_pow]
  have fraction : (@unpackMantissa .binary64 b).toNat = b.toNat % Nat.pow 2 52 := by
    simp [unpackMantissa, BitVec.extractLsb_toNat]
  have none : @unpackMantissa .binary64 b = 0#_ ↔
      (@unpackMantissa .binary64 b).toNat = 0 := by
    rw [← BitVec.toNat_inj]
    rfl
  have least : @unpackExponent .binary64 b = 0#_ ↔
      (@unpackExponent .binary64 b).toNat = 0 := by
    rw [← BitVec.toNat_inj]
    rfl
  have greatest : @unpackExponent .binary64 b = -1#_ ↔
      (@unpackExponent .binary64 b).toNat = Nat.pow 2 11 - 1 := by
    rw [← BitVec.toNat_inj]
    rfl
  rw [ofBits, ← sign, ← biased, ← fraction, UnpackedFloat.unpack, ← isNegative_ofBitVec]
  dsimp only
  by_cases infinite : @unpackExponent .binary64 b = -1#_
  · rw [if_pos infinite, if_pos (beq_iff_eq.2 (greatest.1 infinite))]
    by_cases whole : @unpackMantissa .binary64 b = 0#_
    · rw [if_pos whole, if_pos (beq_iff_eq.2 (none.1 whole)), ofUnpacked]
    · rw [if_neg whole, if_neg fun h => whole (none.2 (beq_iff_eq.1 h)), ofUnpacked]
  rw [if_neg infinite, if_neg fun h => infinite (greatest.2 (beq_iff_eq.1 h))]
  by_cases small : @unpackExponent .binary64 b = 0#_
  · rw [if_pos small, if_pos (beq_iff_eq.2 (least.1 small))]
    by_cases whole : @unpackMantissa .binary64 b = 0#_
    · rw [dif_pos whole, ofUnpacked, none.1 whole]
    · rw [dif_neg whole, ofUnpacked, least.1 small]
      rfl
  · rw [if_neg small, if_neg fun h => small (least.2 (beq_iff_eq.1 h)), ofUnpacked]
    congr 1
    · rw [BitVec.toNat_append, ← Nat.shiftLeft_add_eq_or_of_lt (BitVec.isLt _)]
      rfl
    · change _ = (_ : Int) - ((1023 : Int) + 52)
      unfold leastExponent
      omega

/-- **A double is read by its sign, its mantissa and its exponent.** -/
theorem ofFloat_eq (x : Float) : ofFloat x = ofUnpacked x.toModel.unpack :=
  ofBits_eq x.toBits.toBitVec

end Binary

/-! ## Doubles with all their bits -/

variable {sign : Sign} {m : Nat} {e : Int}

theorem ofBitVec_toBitVec (sign : Sign) : Sign.ofBitVec sign.toBitVec = sign := by
  cases sign <;> rfl

/-- A magnitude of 53 bits is packed as it is. -/
theorem unpack_pack (pos : 0 < m) (low : 2 ^ 52 ≤ m) (high : m < 2 ^ 53) (least : -1074 ≤ e)
    (greatest : e ≤ 971) :
    (Float.Model.pack (.finite sign m e pos)).unpack = .finite sign m e pos := by
  have log : m.log2 = 52 := (Nat.log2_eq_iff (by omega)).2 ⟨low, high⟩
  obtain ⟨biased, eq⟩ := Int.eq_ofNat_of_zero_le (a := e + 1023 + 52) (by omega)
  change UnpackedFloat.unpack .binary64 (UnpackedFloat.pack .binary64 _) = _
  have packed : UnpackedFloat.pack .binary64 (.finite sign m e pos) =
      packComponents .binary64 sign (BitVec.ofNat 11 biased) (BitVec.ofNat 52 m) := by
    unfold UnpackedFloat.pack
    dsimp only
    change (if 2 ^ 11 ≤ (e + 1023 + 52).toNat + 1 then _ else
      if m.log2 + 1 = 53 then packComponents .binary64 sign
        (BitVec.ofNat 11 (e + 1023 + 52).toNat) (BitVec.ofNat 52 m) else _) = _
    rw [eq, Int.toNat_natCast, if_neg (by omega), if_pos (by omega)]
  have exponent : (BitVec.ofNat 11 biased).toNat = biased := by
    rw [BitVec.toNat_ofNat, Nat.mod_eq_of_lt (by omega)]
  have top : BitVec.ofNat 11 biased ≠ -1#11 := fun h => by
    have := congrArg BitVec.toNat h
    rw [exponent] at this
    change biased = 2047 at this
    omega
  have bottom : BitVec.ofNat 11 biased ≠ 0#11 := fun h => by
    have := congrArg BitVec.toNat h
    rw [exponent] at this
    change biased = 0 at this
    omega
  have magnitude : (1#1 ++ BitVec.ofNat 52 m).toNat = m := by
    rw [BitVec.toNat_append, ← Nat.shiftLeft_add_eq_or_of_lt (BitVec.isLt _), BitVec.toNat_ofNat]
    change 1 <<< 52 + m % 2 ^ 52 = m
    omega
  rw [packed]
  unfold UnpackedFloat.unpack
  simp only [unpackMantissa_packComponents, unpackExponent_packComponents,
    unpackSign_packComponents, ofBitVec_toBitVec]
  rw [if_neg top, if_neg bottom]
  congr 1
  rw [exponent]
  change (biased : Int) - (1023 + 52) = e
  omega

theorem shiftRight_exact (m j : Nat) :
    (ExtendedMantissa.ofMantissaAndAccuracy (m * 2 ^ j) .exact) >>> j =
      ExtendedMantissa.ofMantissaAndAccuracy m .exact := by
  change Nat.repeat ExtendedMantissa.shiftRightOne j _ = _
  induction j generalizing m with
  | zero => rw [Nat.pow_zero, Nat.mul_one]; rfl
  | succ j ih =>
    rw [Nat.repeat, Nat.pow_succ', ← Nat.mul_assoc, ih]
    simp [ExtendedMantissa.shiftRightOne, ExtendedMantissa.ofMantissaAndAccuracy]

/-- Bits behind the 53 of a magnitude go when they are zero. -/
theorem shiftToTargetExponent_exact (low : 2 ^ 52 ≤ m) (high : m < 2 ^ 53) (least : -1074 ≤ e)
    (j : Nat) : shiftToTargetExponent .binary64 (m * 2 ^ j) (e - j) .exact =
      (ExtendedMantissa.ofMantissaAndAccuracy m .exact, e) := by
  have log : (m * 2 ^ j).log2 = 52 + j := by
    refine (Nat.log2_eq_iff (by positivity)).2 ⟨?_, ?_⟩
    · rw [Nat.pow_add]
      exact Nat.mul_le_mul_right _ low
    · rw [Nat.add_right_comm, Nat.pow_add]
      exact Nat.mul_lt_mul_of_pos_right high (by positivity)
  have target : Format.targetExponent .binary64 (totalExponent (m * 2 ^ j) (e - j)) = e := by
    unfold totalExponent Format.targetExponent
    rw [log]
    change max (((52 + j : Nat) : Int) + 1 + (e - j) - 53) (-1074) = e
    omega
  unfold shiftToTargetExponent shiftToExponent
  have shift : (e - (e - (j : Int))).toNat = j := by omega
  rw [target]
  dsimp only
  rw [shift, shiftRight_exact, Int.sub_add_cancel]

theorem roundWithAccuracy_exact (sign : Sign) (pos : 0 < m) (low : 2 ^ 52 ≤ m) (high : m < 2 ^ 53)
    (least : -1074 ≤ e) (j : Nat) :
    roundWithAccuracy .binary64 sign (m * 2 ^ j) (e - j) .exact = .finite sign m e pos := by
  have again := shiftToTargetExponent_exact low high least 0
  rw [Nat.pow_zero, Nat.mul_one, Int.natCast_zero, Int.sub_zero] at again
  unfold roundWithAccuracy
  rw [shiftToTargetExponent_exact low high least j]
  dsimp only
  change (match shiftToTargetExponent .binary64 m e .exact with
    | (finalExtendedMantissa, finalExponent) =>
      if h : finalExtendedMantissa.mantissa = 0 then UnpackedFloat.zero sign
      else .finite sign finalExtendedMantissa.mantissa finalExponent (Nat.pos_of_ne_zero h)) = _
  rw [again]
  exact dif_neg (Nat.ne_of_gt pos)

/-! ## Counts -/

/-- The magnitude of a count, moved up until its 53rd bit is set. -/
def aligned (n : Nat) : Nat := n * 2 ^ (52 - n.log2)

theorem aligned_bounds {n : Nat} (pos : 0 < n) (small : n < 2 ^ 53) :
    2 ^ 52 ≤ aligned n ∧ aligned n < 2 ^ 53 := by
  have top : n.log2 < 53 := (Nat.log2_lt (Nat.ne_of_gt pos)).2 small
  obtain ⟨low, high⟩ := (Nat.log2_eq_iff (Nat.ne_of_gt pos)).1 rfl
  unfold aligned
  constructor
  · calc 2 ^ 52 = 2 ^ n.log2 * 2 ^ (52 - n.log2) := by rw [← Nat.pow_add]; congr 1; omega
      _ ≤ n * 2 ^ (52 - n.log2) := Nat.mul_le_mul_right _ low
  · calc n * 2 ^ (52 - n.log2) < 2 ^ (n.log2 + 1) * 2 ^ (52 - n.log2) :=
          Nat.mul_lt_mul_of_pos_right high (by positivity)
      _ = 2 ^ 53 := by rw [← Nat.pow_add]; congr 1; omega

theorem ofUInt64_eq {n : Nat} (pos : 0 < n) (small : n < 2 ^ 53) (h : 0 < aligned n) :
    UnpackedFloat.ofUInt64 .binary64 n.toUInt64 =
      .finite .positive (aligned n) (-((52 - n.log2 : Nat) : Int)) h := by
  obtain ⟨low, high⟩ := aligned_bounds pos small
  have top : n.log2 < 53 := (Nat.log2_lt (Nat.ne_of_gt pos)).2 small
  have word : n.toUInt64.toNat = n := UInt64.toNat_ofNat_of_lt (by
    rw [UInt64.size]
    omega)
  have target : Format.targetExponent .binary64 (totalExponent n 0) =
      -((52 - n.log2 : Nat) : Int) := by
    unfold totalExponent Format.targetExponent
    change max ((n.log2 : Int) + 1 + 0 - 53) (-1074) = _
    omega
  have shift : (0 - -((52 - n.log2 : Nat) : Int)).toNat = 52 - n.log2 := by omega
  have exact := roundWithAccuracy_exact .positive (e := -((52 - n.log2 : Nat) : Int)) h
    low high (by omega) 0
  rw [Nat.pow_zero, Nat.mul_one, Int.natCast_zero, Int.sub_zero] at exact
  have positive : compare (n : Int) 0 = .gt := compare_gt_iff_gt.2 (by omega)
  calc UnpackedFloat.ofUInt64 .binary64 n.toUInt64
      = UnpackedFloat.normalize .binary64 (n.toUInt64.toNat : Int) 0 .positive := rfl
    _ = UnpackedFloat.round .binary64 .positive n 0 := by
      unfold UnpackedFloat.normalize
      rw [word, positive]
      rfl
    _ = roundWithAccuracy .binary64 .positive (aligned n) (-((52 - n.log2 : Nat) : Int))
        .exact := by
      unfold UnpackedFloat.round decreaseExponent
      rw [target]
      dsimp only
      rw [shift, Nat.shiftLeft_eq, Int.zero_sub]
      rfl
    _ = _ := exact

/-- The double of a count is the count itself. -/
theorem unpack_ofNat {n : Nat} (pos : 0 < n) (small : n < 2 ^ 53) :
    ∃ h, (Float.ofNat n).toModel.unpack =
      .finite .positive (aligned n) (-((52 - n.log2 : Nat) : Int)) h := by
  obtain ⟨low, high⟩ := aligned_bounds pos small
  have h : 0 < aligned n := by omega
  have one : (Float.ofBits 4607182418800017408).toModel.unpack =
      .finite .positive (2 ^ 52) (-52) (by decide) := rfl
  have count : n.toUInt64.toFloat.toModel.unpack =
      .finite .positive (aligned n) (-((52 - n.log2 : Nat) : Int)) h := by
    change (Float.Model.pack (UnpackedFloat.ofUInt64 .binary64 n.toUInt64)).unpack = _
    rw [ofUInt64_eq pos small h, unpack_pack h low high (by omega) (by omega)]
  have scaled : (Float.ofNat n).toModel =
      Float.Model.mul n.toUInt64.toFloat.toModel (Float.ofBits 4607182418800017408).toModel := by
    change (Float.ofScientific n false 0).toModel = _
    unfold Float.ofScientific
    rw [dif_pos ⟨small, by omega⟩]
    rfl
  have exact := roundWithAccuracy_exact .positive (e := -((52 - n.log2 : Nat) : Int)) h
    low high (by omega) 52
  refine ⟨h, ?_⟩
  rw [scaled, Float.Model.mul, count, one]
  change (Float.Model.pack (roundWithAccuracy .binary64 .positive (aligned n * 2 ^ 52)
    (-((52 - n.log2 : Nat) : Int) - (52 : Nat)) .exact)).unpack = _
  rw [exact, unpack_pack h low high (by omega) (by omega)]

/-- **The double of a count is that count**, below `2 ^ 53`. -/
theorem integer?_ofNat {n : Nat} (small : n < 2 ^ 53) :
    integer? (Float.ofNat n) = some (n : Int) := by
  rcases Nat.eq_zero_or_pos n with rfl | pos
  · decide +kernel
  obtain ⟨_, unpacked⟩ := unpack_ofNat pos small
  rw [integer?, Binary.ofFloat_eq, unpacked]
  have top : n.log2 < 53 := (Nat.log2_lt (Nat.ne_of_gt pos)).2 small
  have whole : Binary.isWhole (aligned n) (-((52 - n.log2 : Nat) : Int)) = true := by
    unfold Binary.isWhole aligned
    rw [Int.neg_neg, Int.toNat_natCast, Bool.or_eq_true, beq_iff_eq]
    exact Or.inr (Nat.mul_mod_left n _)
  have part : Binary.wholePart (aligned n) (-((52 - n.log2 : Nat) : Int)) = n := by
    unfold Binary.wholePart aligned
    split
    next h =>
      have none : 52 - n.log2 = 0 := by omega
      rw [none]
      simp
    next =>
      rw [Int.neg_neg, Int.toNat_natCast]
      exact Nat.mul_div_cancel n (by positivity)
  rw [Binary.ofUnpacked, Binary.integer?, if_pos whole, part]
  rfl

/-- Equal doubles are the same integer, if any. -/
theorem integer?_eq_of_beq {x y : Float} (h : (x == y) = true) : integer? x = integer? y := by
  have zeros : integer? 0 = integer? (-0) := by decide +kernel
  obtain ⟨-, -, rfl | ⟨rfl, rfl⟩ | ⟨rfl, rfl⟩⟩ := Float.beq_iff_ne_nan_and_eq.1 h
  · rfl
  · exact zeros
  · exact zeros.symm

end SheetScript.Number
