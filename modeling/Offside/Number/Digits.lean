import Offside.Number.Exact

/-!
The decimal digits of a number: as few as denote the number and no other.
-/

namespace Offside.Number

/-- The number nearest to `n * 10 ^ e`. What has its first digit beyond the range of the format is
decided without a large power of ten. -/
def ofDecimal (n : Nat) (e : Int) : Float :=
  if n = 0 then nearest 0 1
  else
    let places := (Nat.toDigits 10 n).length + e
    if 310 < places then infinity
    else if places < -330 then nearest 0 1
    else
      let (num, den) := scale 10 n 1 e
      nearest num den

/-- The decimal number `0.d₁d₂… * 10 ^ point`. -/
structure Digits where
  digits : List Char
  point : Int
deriving DecidableEq

namespace Digits

def zero : Digits :=
  ⟨['0'], 1⟩

/-- The digits of `n * 10 ^ unit`, without zeros at the end. -/
def ofScaled (n : Nat) (unit : Int) : Digits :=
  if n = 0 then zero
  else
    let all := Nat.toDigits 10 n
    ⟨(all.reverse.dropWhile (· = '0')).reverse, all.length + unit⟩

/-- The power of ten of the first digit. -/
def exponent (d : Digits) : Int :=
  d.point - 1

end Digits

/-- The largest `k` with `10 ^ k ≤ num / den`. -/
def decimalExponent (num den : Nat) : Int :=
  if den ≤ num then
    ((Nat.toDigits 10 (num / den)).length : Int) - 1
  else
    -((Nat.toDigits 10 ((den + num - 1) / num - 1)).length : Int)

/-- Of the two multiples of `10 ^ unit` around `num / den`, the nearer one that denotes `x`. The
upper one is the nearer of two that are equally near. -/
def candidate (x : Float) (num den : Nat) (unit : Int) : Option Digits :=
  let (n, d) := scale 10 num den (-unit)
  let below := n / d
  let order := if 2 * (n % d) < d then [below, below + 1] else [below + 1, below]
  (order.find? fun n => (ofDecimal n unit).toBits = x.toBits).map (Digits.ofScaled · unit)

/-- The fewest digits that denote `x`, whose value is `significand * 2 ^ exponent`. No number needs
more than 17; the digits of the exact value stand for the case that cannot occur. -/
def shortest (x : Float) (significand : Nat) (exponent : Int) : Digits :=
  if significand = 0 then .zero
  else
    let (num, den) := scale 2 significand 1 exponent
    let first := decimalExponent num den
    match (List.range 17).findSome? fun (count : Nat) => candidate x num den (first - count) with
    | some digits => digits
    | none =>
      if exponent < 0 then
        Digits.ofScaled (significand * Nat.pow 5 (-exponent).toNat) exponent
      else
        Digits.ofScaled num 0

end Offside.Number
