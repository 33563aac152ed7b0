import SheetScript.Number.Shortest

/-!
# Written forms of a number

Every form shows the digits of `shortest`; a `Style` says how.

* `positional` writes the digits around a decimal point and no exponent: `1500`, `0.001`, `-2.5`.
* `scientific` writes one digit before the point and a power of ten: `1.5e3`, `1e-3`, `-2.5e0`.
* `display` is how a script shows a number. An integer below `10 ^ 15` is written as an integer, so
  both zeros are `0`; everything else is positional.
-/

namespace SheetScript.Number

/-- The decimal digits of a natural number. -/
def digitList (n : Nat) : List Char := Nat.toDigits 10 n

/-- The text of an integer. -/
def integerText (i : Int) : String :=
  String.ofList ((if i < 0 then ['-'] else []) ++ digitList i.natAbs)

namespace Decimal

/-- The digits around a decimal point, with zeros where the digits do not reach it. -/
def positional (d : Decimal) : List Char :=
  let digits := digitList d.digits
  if 0 ≤ d.exponent then digits ++ List.replicate d.exponent.toNat '0'
  else
    let places := (-d.exponent).toNat
    if places < digits.length then
      digits.take (digits.length - places) ++ '.' :: digits.drop (digits.length - places)
    else '0' :: '.' :: List.replicate (places - digits.length) '0' ++ digits

/-- One digit, the others after a point, and the power of ten of the first. -/
def scientific (d : Decimal) : List Char :=
  let digits := digitList d.digits
  let power : Int := d.exponent + (digits.length - 1 : Nat)
  let rest := digits.drop 1
  digits.take 1 ++ (if rest.isEmpty then [] else '.' :: rest) ++ 'e' :: (integerText power).toList

end Decimal

/-- How doubles are written. -/
structure Style where
  tie : Tie := .larger
  form : Decimal → List Char
  infinity : String := "inf"

/-- The text of a double. A zero is written like the decimal `0`. -/
def written (style : Style) (x : Float) : String :=
  let signed (negative : Bool) (text : List Char) : String :=
    String.ofList (if negative then '-' :: text else text)
  match Binary.ofFloat x with
  | .notANumber => "NaN"
  | .infinite negative => signed negative style.infinity.toList
  | .finite negative mantissa exponent =>
    signed negative
      (style.form (if mantissa == 0 then ⟨0, 0⟩ else shortest style.tie mantissa exponent))

/-- The digits around a decimal point. -/
def positional (x : Float) : String := written { form := Decimal.positional } x

/-- One digit before the point and a power of ten. -/
def scientific (x : Float) : String := written { form := Decimal.scientific } x

/-- From this magnitude on an integer is shown through its shortest digits. -/
def displayedIntegers : Nat := Nat.pow 10 15

/-- How a script shows numbers that are no integers below that. -/
def displayStyle : Style := { form := Decimal.positional, infinity := "Infinity" }

/-- How a script shows a number. -/
def display (x : Float) : String :=
  match integer? x with
  | some i => if i.natAbs < displayedIntegers then integerText i else written displayStyle x
  | none => written displayStyle x

end SheetScript.Number
