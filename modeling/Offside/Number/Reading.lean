import Offside.Number.Digits

/-!
The number that a text denotes.
-/

namespace Offside.Number

/-- An exponent: nothing, or a letter `e`, a sign that may be missing, and digits. -/
def readExponent : List Char → Option Int
  | [] => some 0
  | c :: s =>
    if c = 'e' ∨ c = 'E' then
      let (negative, digits) := match s with
        | '-' :: r => (true, r)
        | '+' :: r => (false, r)
        | r => (false, r)
      if digits.isEmpty || !digits.all Char.isDigit then none
      else
        let n := Nat.ofDigitChars 10 digits 0
        some (if negative then -(n : Int) else n)
    else none

/-- Digits with a point that may be missing and may stand first or last, then an exponent. -/
def readDecimal (s : List Char) : Option Float :=
  let whole := s.takeWhile Char.isDigit
  let (fraction, rest) := match s.dropWhile Char.isDigit with
    | '.' :: r => (r.takeWhile Char.isDigit, r.dropWhile Char.isDigit)
    | r => ([], r)
  if whole.isEmpty && fraction.isEmpty then none
  else
    (readExponent rest).map fun e =>
      ofDecimal (Nat.ofDigitChars 10 (whole ++ fraction) 0) (e - fraction.length)

def readUnsigned (s : List Char) : Option Float :=
  let word := s.map Char.toLower
  if word = "inf".toList ∨ word = "infinity".toList then some infinity
  else if word = "nan".toList then some nan
  else readDecimal s

/-- A number with a sign that may be missing. Decimal digits are rounded to the nearest number, and
to an infinity beyond the range of the format. -/
def read : List Char → Option Float
  | '-' :: s => (readUnsigned s).map Float.neg
  | '+' :: s => readUnsigned s
  | s => readUnsigned s

end Offside.Number
