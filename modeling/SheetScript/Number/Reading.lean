import SheetScript.Text.Blank
import SheetScript.Text.Letter

/-!
# Reading numbers

* `ofDecimal digits exponent` is the double nearest to `digits · 10 ^ exponent`.
* `read?` reads a number in full: an optional sign, then digits with an optional point and an
  optional power of ten, or one of the words `inf`, `infinity` and `nan` in any case. At least one
  digit stands beside the point.
-/

namespace SheetScript.Number

/-- The value of a list of decimal digits. -/
def digitsValue (digits : List Char) : Nat :=
  digits.foldl (fun value c => 10 * value + (c.toNat - '0'.toNat)) 0

/-- Beyond this power of ten every decimal is infinite as a double, and below its reciprocal every
decimal is zero. -/
def greatestPower : Int := 400

/-- The double nearest to `digits · 10 ^ exponent`. -/
def ofDecimal (digits : Nat) (exponent : Int) : Float :=
  let point : Int := (Nat.toDigits 10 digits).length + exponent
  if digits == 0 || point < -greatestPower then 0.0
  else if point > greatestPower then 1.0 / 0.0
  else if exponent < 0 then Float.ofScientific digits true exponent.natAbs
  else Float.ofScientific digits false exponent.natAbs

/-- Read an optional sign; whether it is a minus, and the rest. -/
def readSign : List Char → Bool × List Char
  | '-' :: rest => (true, rest)
  | '+' :: rest => (false, rest)
  | rest => (false, rest)

/-- Read the power of ten after a number, up to the end. -/
def readPower? : List Char → Option Int
  | [] => some 0
  | c :: rest =>
    if c == 'e' || c == 'E' then
      let (negative, digits) := readSign rest
      if digits.isEmpty || !digits.all Text.isDecimalDigit then none
      else
        let power : Int := digitsValue digits
        some (if negative then -power else power)
    else none

/-- Read digits with an optional point and an optional power of ten. -/
def readUnsigned? (cs : List Char) : Option Float :=
  let (whole, rest) := cs.span Text.isDecimalDigit
  let (fraction, rest) :=
    match rest with
    | '.' :: rest => rest.span Text.isDecimalDigit
    | rest => ([], rest)
  if whole.isEmpty && fraction.isEmpty then none
  else (readPower? rest).map fun power =>
    ofDecimal (digitsValue (whole ++ fraction)) (power - fraction.length)

/-- Read one of the words for what is no finite number. -/
def readWord? (cs : List Char) : Option Float :=
  let word := cs.map Char.toLower
  if word == "inf".toList || word == "infinity".toList then some (1.0 / 0.0)
  else if word == "nan".toList then some (0.0 / 0.0)
  else none

/-- Read a number in full. -/
def read? (s : String) : Option Float :=
  let (negative, rest) := readSign s.toList
  ((readWord? rest).or (readUnsigned? rest)).map fun x => if negative then -x else x

end SheetScript.Number
