import SheetScript.Json.Basic
import SheetScript.Number.Reading

/-!
# JSON numbers

A number is an integer unless it has a point or a power of ten, or does not fit 64 bits; a
negative zero is a real. A real is read from its first digits, as many as fit 64 bits, and a power
of ten: one multiplication or one division of doubles, in two steps below `10 ^ -308`. A number
too large for a double is refused.
-/

namespace SheetScript.Json

/-- The parts of a written number. -/
structure Numeral where
  negative : Bool
  /-- The digits before the point. -/
  whole : List Char
  /-- The digits after the point. -/
  fraction : List Char
  /-- The power of ten, if one is written. -/
  power? : Option Int
  deriving Repr

/-- The bound of what 64 bits hold. -/
def wordBound : Nat := Nat.pow 2 64

/-- Take digits into the number as long as it fits 64 bits; the number and the digits left. -/
def takeDigits (number : Nat) : List Char → Nat × List Char
  | [] => (number, [])
  | c :: rest =>
    let next := 10 * number + (c.toNat - '0'.toNat)
    if next < wordBound then takeDigits next rest else (number, c :: rest)

/-- The power of ten as a double. -/
def tens (power : Nat) : Float := Number.ofDecimal 1 power

/-- The significand times a power of ten, refused when too large. -/
def scaled? (significand : Nat) (power : Int) : Option Float :=
  let x := Float.ofNat significand
  if significand == 0 then some 0.0
  else if power > 308 then none
  else if 0 ≤ power then
    let scaled := x * tens power.toNat
    if scaled.isInf then none else some scaled
  else
    let power := power.natAbs
    if power ≤ 308 then some (x / tens power)
    else if power ≤ 616 then some (x / tens 308 / tens (power - 308))
    else some 0.0

namespace Numeral

/-- The number as a real. -/
def real? (n : Numeral) : Option Float :=
  let (significand, left) := takeDigits 0 n.whole
  let (significand, unread) := takeDigits significand n.fraction
  let taken : Int := n.fraction.length - unread.length
  (scaled? significand (left.length - taken + n.power?.getD 0)).map fun x =>
    if n.negative then -x else x

/-- The number as a value. -/
def toJson? (n : Numeral) : Option Json :=
  let magnitude := Number.digitsValue n.whole
  if n.fraction.isEmpty && n.power?.isNone then
    if n.negative && 0 < magnitude && magnitude ≤ Nat.pow 2 63 then some (.integer (-magnitude))
    else if !n.negative && magnitude < wordBound then some (.integer magnitude)
    else n.real?.map .real
  else n.real?.map .real

end Numeral

end SheetScript.Json
