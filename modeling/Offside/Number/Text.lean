import Offside.Number.Digits

/-!
The four ways a number is written: in source text, in the outline of a syntax tree, in a listing of
tokens, and by a program.
-/

namespace Offside.Number

namespace Digits

variable (d : Digits)

def zeros (n : Nat) : List Char :=
  List.replicate n '0'

/-- The digits with a point between them, if a digit stands behind it. -/
def positional : List Char :=
  if d.point ≤ 0 then
    '0' :: '.' :: zeros (-d.point).toNat ++ d.digits
  else
    let whole := d.point.toNat
    if d.digits.length ≤ whole then d.digits ++ zeros (whole - d.digits.length)
    else d.digits.take whole ++ '.' :: d.digits.drop whole

/-- One digit in front of the point. -/
def mantissa : List Char :=
  match d.digits with
  | first :: second :: rest => first :: '.' :: second :: rest
  | digits => digits

end Digits

/-- Put the sign in front of the text of a magnitude. -/
def withSign (negative : Bool) (text : List Char) : String :=
  String.ofList (if negative then '-' :: text else text)

/-- The text of a number in source text: positional, with as few digits as denote it. -/
def spelling (x : Float) : String :=
  match exact x with
  | .nan => "NaN"
  | .infinite negative => withSign negative "inf".toList
  | .finite negative significand exponent =>
    withSign negative (shortest x significand exponent).positional

/-- The text of a number in the outline of a syntax tree: a digit always follows the point, and
from `10 ^ 16` on, or below `10 ^ -4`, the power of ten is written out. -/
def outline (x : Float) : String :=
  match exact x with
  | .nan => "NaN"
  | .infinite negative => withSign negative "inf".toList
  | .finite negative significand exponent =>
    let digits := shortest x significand exponent
    if digits.exponent < -4 ∨ 16 ≤ digits.exponent then
      withSign negative (digits.mantissa ++ 'e' :: (toString digits.exponent).toList)
    else if digits.digits.length ≤ digits.point then
      withSign negative (digits.positional ++ ['.', '0'])
    else
      withSign negative digits.positional

/-- The digits of a number with a point in front of the last `places` of them. A digit always stands
in front of the point, and there is no point if none stands behind it. -/
def pointed (places n : Nat) : List Char :=
  let whole := Nat.toDigits 10 (n / Nat.pow 10 places)
  let fraction := Nat.toDigits 10 (n % Nat.pow 10 places)
  if places = 0 then whole
  else whole ++ '.' :: (Digits.zeros (places - fraction.length) ++ fraction)

/-- A ratio with `places` digits behind the point; a half goes to the even digit. -/
def fixed (places num den : Nat) : List Char :=
  pointed places (roundHalfEven (num * Nat.pow 10 places) den)

/-- A ratio with one digit in front of the point and `places` behind it, and the power of ten that
goes with them. What is rounded up to ten has the next power. -/
def scientific (places num den : Nat) : List Char × Int :=
  if num = 0 then (pointed places 0, 0)
  else
    let power := decimalExponent num den
    let (n, d) := scale 10 num den (places - power)
    let rounded := roundHalfEven n d
    if rounded < Nat.pow 10 (places + 1) then (pointed places rounded, power)
    else (pointed places (rounded / 10), power + 1)

/-- A text with a point loses the zeros at its end, and then a point there. -/
def trimZeros (text : List Char) : List Char :=
  if '.' ∈ text then ((text.reverse.dropWhile (· = '0')).dropWhile (· = '.')).reverse
  else text

/-- The text of a number with six digits behind the point. -/
def sixPlaces (x : Float) : String :=
  match exact x with
  | .nan => "NaN"
  | .infinite negative => withSign negative "inf".toList
  | .finite negative significand exponent =>
    let (num, den) := scale 2 significand 1 exponent
    withSign negative (fixed 6 num den)

/-- The exponent with its sign and at least two digits. -/
def signedExponent (e : Int) : List Char :=
  let digits := Nat.toDigits 10 e.natAbs
  (if e < 0 then '-' else '+') :: Digits.zeros (2 - digits.length) ++ digits

/-- The text that a program prints for a number: rounded to six significant digits, without zeros
behind the last digit after the point; the power of ten is written out when it is below `-4` or
above `5`. The power is that of the rounded number, so it is known only from the digits. -/
def general (x : Float) : String :=
  match exact x with
  | .nan => "nan"
  | .infinite negative => withSign negative "inf".toList
  | .finite negative significand exponent =>
    let (num, den) := scale 2 significand 1 exponent
    let (mantissa, power) := scientific 5 num den
    if power < -4 ∨ 6 ≤ power then
      withSign negative (trimZeros mantissa ++ 'e' :: signedExponent power)
    else
      withSign negative (trimZeros (fixed (5 - power).toNat num den))

end Offside.Number
