import SheetScript.Number.Binary

/-!
# The shortest decimal that reads back

A positive double `m · 2 ^ e` is the nearest double of every real in an interval around it, half
way to its neighbours on either side; the ends belong to it when `m` is even. `shortest tie m e`
is the decimal with the fewest digits in that interval, and of those the one nearest to the
double. Which of two equally near decimals that is depends on the format (`Tie`).

For each number of digits only the two neighbours of the double on that decimal grid are tried,
in exact arithmetic on naturals: both sides of a comparison are brought to one scale by
`Scale.ofExponents`.
-/

namespace SheetScript.Number

/-- Which of two equally near decimals is taken. -/
inductive Tie where
  | larger
  /-- The one whose last digit is even. -/
  | even
  deriving Repr, DecidableEq, Inhabited

/-- The decimal number `digits · 10 ^ exponent`. -/
structure Decimal where
  digits : Nat
  exponent : Int
  deriving Repr, DecidableEq, Inhabited

namespace Decimal

/-- How many decimal digits a natural number has; `0` has one. -/
def length (n : Nat) : Nat := (Nat.toDigits 10 n).length

/-- Drop trailing zeros of the digits, at most `room` of them. -/
def dropZeros : Nat → Nat → Int → Decimal
  | 0, digits, exponent => ⟨digits, exponent⟩
  | room + 1, digits, exponent =>
    if digits % 10 == 0 then dropZeros room (digits / 10) (exponent + 1) else ⟨digits, exponent⟩

/-- The same number without trailing zeros in its digits. -/
def normalize (d : Decimal) : Decimal := dropZeros (length d.digits - 1) d.digits d.exponent

end Decimal

/-- Factors that make a multiple of `2 ^ a` and a multiple of `10 ^ b` comparable as naturals. -/
structure Scale where
  ofTwos : Nat
  ofTens : Nat

/-- The factors for `2 ^ a` and `10 ^ b`: negative exponents move to the other side. -/
def Scale.ofExponents (a b : Int) : Scale where
  ofTwos := Nat.pow 2 a.toNat * Nat.pow 10 (-b).toNat
  ofTens := Nat.pow 10 b.toNat * Nat.pow 2 (-a).toNat

/-- The reals that read back as one double, in quarters of its last place. -/
structure Neighbourhood where
  low : Nat
  value : Nat
  high : Nat
  /-- Whether the ends belong to it. -/
  closed : Bool

namespace Neighbourhood

/-- The reals that read back as `mantissa · 2 ^ e`. Below a power of two the doubles are twice as
dense, so that end is half as far. -/
def ofMantissa (mantissa : Nat) : Neighbourhood where
  low := 4 * mantissa - (if mantissa == Nat.pow 2 52 then 1 else 2)
  value := 4 * mantissa
  high := 4 * mantissa + 2
  closed := mantissa % 2 == 0

/-- Whether the point `digits` of the decimal grid lies in the neighbourhood. -/
def holds (n : Neighbourhood) (scale : Scale) (digits : Nat) : Bool :=
  let point := digits * scale.ofTens
  if n.closed then n.low * scale.ofTwos ≤ point && point ≤ n.high * scale.ofTwos
  else n.low * scale.ofTwos < point && point < n.high * scale.ofTwos

/-- Of the two points of the grid around a value, the nearer one. `rest` is how far the value is
above the lower one, and `step` how far the two are apart. -/
def nearer (tie : Tie) (below rest step : Nat) : Nat :=
  if 2 * rest < step then below
  else if step < 2 * rest then below + 1
  else
    match tie with
    | .larger => below + 1
    | .even => if below % 2 == 0 then below else below + 1

/-- The nearest point of the decimal grid in the neighbourhood. -/
def nearest? (tie : Tie) (n : Neighbourhood) (scale : Scale) : Option Nat :=
  let value := n.value * scale.ofTwos
  let below := value / scale.ofTens
  match n.holds scale below, n.holds scale (below + 1) with
  | true, true => some (nearer tie below (value % scale.ofTens) scale.ofTens)
  | true, false => some below
  | false, true => some (below + 1)
  | false, false => none

end Neighbourhood

/-- The power of ten above `mantissa · 2 ^ exponent`: the least `p` with the number below
`10 ^ p`. -/
def decimalPoint (mantissa : Nat) (exponent : Int) : Int :=
  let scale := Scale.ofExponents exponent (-400)
  (Decimal.length (mantissa * scale.ofTwos / scale.ofTens) : Int) - 400

/-- The number of digits that always suffices. -/
def enoughDigits : Nat := 17

/-- The shortest decimal that reads back as `mantissa · 2 ^ exponent`, for a positive mantissa. -/
def shortest (tie : Tie) (mantissa : Nat) (exponent : Int) : Decimal :=
  let around := Neighbourhood.ofMantissa mantissa
  let point := decimalPoint mantissa exponent
  let onGrid (count : Nat) : Option Decimal :=
    let place := point - count
    (around.nearest? tie (Scale.ofExponents (exponent - 2) place)).map fun digits =>
      Decimal.normalize ⟨digits, place⟩
  ((List.range enoughDigits).findSome? fun count => onGrid (count + 1)).getD ⟨0, 0⟩

end SheetScript.Number
