/-!
# Doubles as exact numbers

A finite double is a sign and a magnitude `m · 2 ^ e` with `m < 2 ^ 53`; the other doubles are the
infinities and the one that is no number. Everything that has to be exact is decided here, on `m`
and `e`, in the arithmetic of the naturals.

* `Binary.ofFloat` takes a double apart and `Binary.toFloat` puts one together.
* `Binary.integer?` is the integer that a double is, if it is one.
* `Binary.countUpTo` is how often a loop over a number runs.
-/

namespace SheetScript.Number

/-- A double, taken apart. -/
inductive Binary where
  /-- No number. -/
  | notANumber
  /-- An infinity and its sign. -/
  | infinite (negative : Bool)
  /-- Plus or minus `mantissa · 2 ^ exponent`; both zeros have mantissa `0`. -/
  | finite (negative : Bool) (mantissa : Nat) (exponent : Int)
  deriving Repr, DecidableEq, Inhabited

namespace Binary

/-- The exponent of the last place of the smallest doubles. -/
def leastExponent : Int := -1074

/-- Take the 64 bits of a double apart: sign, eleven bits of exponent, 52 bits of fraction. -/
def ofBits (bits : Nat) : Binary :=
  let negative := bits / Nat.pow 2 63 % 2 == 1
  let biased : Nat := bits / Nat.pow 2 52 % Nat.pow 2 11
  let fraction : Nat := bits % Nat.pow 2 52
  if biased == Nat.pow 2 11 - 1 then
    if fraction == 0 then .infinite negative else .notANumber
  else if biased == 0 then .finite negative fraction leastExponent
  else .finite negative (Nat.pow 2 52 + fraction) ((biased : Int) + leastExponent - 1)

/-- Take a double apart. -/
def ofFloat (x : Float) : Binary := ofBits x.toBits.toNat

/-- The bits of the magnitude `mantissa · 2 ^ exponent`, for `mantissa < 2 ^ 53` and an exponent
from `leastExponent` on: the mantissa is moved up until its 53rd bit is set or the exponent is the
least one. -/
def magnitudeBits (mantissa : Nat) (exponent : Int) : Nat :=
  let room := 52 - mantissa.log2
  let shift := min room (exponent - leastExponent).toNat
  let mantissa := mantissa * Nat.pow 2 shift
  let exponent := exponent - shift
  if mantissa < Nat.pow 2 52 then mantissa
  else (exponent - leastExponent + 1).toNat * Nat.pow 2 52 + (mantissa - Nat.pow 2 52)

/-- Put a double together. -/
def toFloat : Binary → Float
  | notANumber => 0.0 / 0.0
  | infinite negative => if negative then -1.0 / 0.0 else 1.0 / 0.0
  | finite negative mantissa exponent =>
    let magnitude := Float.ofBits (UInt64.ofNat (magnitudeBits mantissa exponent))
    if negative then -magnitude else magnitude

/-- The magnitude `mantissa · 2 ^ exponent` without its fraction. -/
def wholePart (mantissa : Nat) (exponent : Int) : Nat :=
  if 0 ≤ exponent then mantissa * Nat.pow 2 exponent.toNat
  else mantissa / Nat.pow 2 (-exponent).toNat

/-- Whether `mantissa · 2 ^ exponent` has no fraction. -/
def isWhole (mantissa : Nat) (exponent : Int) : Bool :=
  0 ≤ exponent || mantissa % Nat.pow 2 (-exponent).toNat == 0

/-- The integer that the number is, if it is one. Both zeros are `0`. -/
def integer? : Binary → Option Int
  | finite negative mantissa exponent =>
    if isWhole mantissa exponent then
      let magnitude : Int := wholePart mantissa exponent
      some (if negative then -magnitude else magnitude)
    else none
  | _ => none

/-- How many steps a loop over the number takes: its whole part, none for a negative number or for
no number, and never more than `limit`. -/
def countUpTo (limit : Nat) : Binary → Nat
  | notANumber => 0
  | infinite negative => if negative then 0 else limit
  | finite negative mantissa exponent =>
    if negative then 0 else min (wholePart mantissa exponent) limit

end Binary

/-- The integer that a double is, if it is one. -/
def integer? (x : Float) : Option Int := (Binary.ofFloat x).integer?

/-- The nearest integer that 64 bits with a sign hold. -/
def clampWord (i : Int) : Int :=
  let bound : Int := Nat.pow 2 63
  max (-bound) (min i (bound - 1))

end SheetScript.Number
