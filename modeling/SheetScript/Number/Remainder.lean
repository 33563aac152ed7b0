import SheetScript.Number.Binary

/-!
# Remainders

* `remainder` is the exact remainder of a division whose quotient is cut towards zero: it has the
  sign of the dividend. It is computed on the magnitudes, brought to one exponent.
* `floorMod` is the remainder of a division whose quotient is rounded down: it has the sign of the
  divisor.
-/

namespace SheetScript.Number

/-- The remainder of the magnitudes `m₁ · 2 ^ e₁` and `m₂ · 2 ^ e₂` on the finer of the two
exponents. -/
def magnitudeRemainder (m₁ : Nat) (e₁ : Int) (m₂ : Nat) (e₂ : Int) : Nat × Int :=
  let e := min e₁ e₂
  (m₁ * Nat.pow 2 (e₁ - e).toNat % (m₂ * Nat.pow 2 (e₂ - e).toNat), e)

/-- The remainder of a division whose quotient is cut towards zero. -/
def remainder (a b : Float) : Float :=
  match Binary.ofFloat a, Binary.ofFloat b with
  | .finite negative m₁ e₁, .finite _ m₂ e₂ =>
    if m₂ == 0 then 0.0 / 0.0
    else
      let (m, e) := magnitudeRemainder m₁ e₁ m₂ e₂
      (Binary.finite negative m e).toFloat
  | .finite .., .infinite _ => a
  | _, _ => 0.0 / 0.0

/-- The remainder of a division whose quotient is rounded down. -/
def floorMod (a b : Float) : Float :=
  let r := remainder a b
  if r != 0.0 && (r < 0.0) != (b < 0.0) then r + b else r

end SheetScript.Number
