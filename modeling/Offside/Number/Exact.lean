/-!
Numbers are binary floating point numbers of 64 bits. This module holds the value that such a
number denotes exactly, and the number nearest to a ratio of natural numbers. Whatever is read,
rounded or printed goes through these two, in exact arithmetic.
-/

namespace Offside.Number

def nan : Float :=
  Float.ofBits 0x7FF8000000000000

def infinity : Float :=
  Float.ofBits 0x7FF0000000000000

/-- The value of a number: `significand * 2 ^ exponent` with a sign, when it is finite. -/
inductive Exact where
  | nan
  | infinite (negative : Bool)
  | finite (negative : Bool) (significand : Nat) (exponent : Int)
deriving DecidableEq

/-- The fraction field has 52 bits and the exponent field 11. An exponent field of zero stands for
a significand without its leading bit, and a full one for the values that are not finite. -/
def exact (x : Float) : Exact :=
  let bits := x.toBits.toNat
  let negative := 0x8000000000000000 ≤ bits
  let field := bits / 0x10000000000000 % 0x800
  let fraction := bits % 0x10000000000000
  if field = 0x7FF then
    if fraction = 0 then .infinite negative else .nan
  else if field = 0 then
    .finite negative fraction (-1074)
  else
    .finite negative (0x10000000000000 + fraction) (field - 1075)

/-- The ratio `num / den`, multiplied by a power of `base`. -/
def scale (base num den : Nat) : Int → Nat × Nat
  | .ofNat k => (num * Nat.pow base k, den)
  | .negSucc k => (num, den * Nat.pow base (k + 1))

/-- The natural number nearest to `num / den`, the even one of two that are equally near. -/
def roundHalfEven (num den : Nat) : Nat :=
  let below := num / den
  let twice := 2 * (num % den)
  if twice < den then below
  else if den < twice then below + 1
  else if below % 2 = 0 then below
  else below + 1

/-- The largest `e` with `2 ^ e ≤ num / den`. -/
def binaryExponent (num den : Nat) : Int :=
  let guess : Int := (num.log2 : Int) - den.log2
  let (n, d) := scale 2 num den (-guess)
  if d ≤ n then guess else guess - 1

/-- The bit pattern of the finite or infinite number nearest to `num / den`. The patterns of the
numbers from zero up count them in order, so a significand that is rounded up to the next power of
two carries into the exponent field, and the largest one into infinity. -/
def nearestBits (num den : Nat) : Nat :=
  if num = 0 then 0
  else
    let exponent := binaryExponent num den - 52
    let exponent := if exponent < -1074 then -1074 else exponent
    let (n, d) := scale 2 num den (-exponent)
    let bits := (exponent + 1074).toNat * 0x10000000000000 + roundHalfEven n d
    if bits < 0x7FF0000000000000 then bits else 0x7FF0000000000000

def nearest (num den : Nat) : Float :=
  Float.ofBits (UInt64.ofNat (nearestBits num den))

/-- The largest integral number that is not above `x`. A number without fraction is its own floor,
with the sign of its zero. -/
def floor (x : Float) : Float :=
  match exact x with
  | .finite negative significand exponent =>
    let (n, d) := scale 2 significand 1 exponent
    if n % d = 0 then x
    else if negative then Float.neg (nearest (n / d + 1) 1)
    else nearest (n / d) 1
  | _ => x

/-- A number without the part behind its point. A number that has no such part is kept, with the
sign of its zero. -/
def truncate (x : Float) : Float :=
  match exact x with
  | .finite negative significand exponent =>
    let (n, d) := scale 2 significand 1 exponent
    if n % d = 0 then x
    else if negative then Float.neg (nearest (n / d) 1)
    else nearest (n / d) 1
  | _ => x

/-- The part of a number behind its point. What is not finite differs from itself by what is not a
number. -/
def fraction (x : Float) : Float :=
  x - truncate x

end Offside.Number
