import Offside.Number.Reading
import Offside.RuntimeError
import Offside.Text.Order

/-!
What the operators compute from values, and the values that input denotes.
-/

namespace Offside

def UnaryOp.apply : UnaryOp → Value → Except RuntimeError Value
  | .plus, .number x => .ok (.number x)
  | .minus, .number x => .ok (.number (Float.neg x))
  | .not, .boolean b => .ok (.boolean (!b))
  | _, _ => .error .invalidOperand

namespace Operation

/-- Compare two values, which must both be numbers or both strings. -/
def compare (numbers : Float → Float → Bool) (texts : List Char → List Char → Bool) :
    Value → Value → Except RuntimeError Value
  | .number a, .number b => .ok (.boolean (numbers a b))
  | .string a, .string b => .ok (.boolean (texts a.toList b.toList))
  | _, _ => .error .invalidOperands

/-- The remainder has the sign of the divisor, as far as rounding allows. No comparison but the
difference holds of what is not a number. -/
def apply : Operation → Value → Value → Except RuntimeError Value
  | .add, .number a, .number b => .ok (.number (a + b))
  | .add, .string a, .string b => .ok (.string (a ++ b))
  | .subtract, .number a, .number b => .ok (.number (a - b))
  | .multiply, .number a, .number b => .ok (.number (a * b))
  | .divide, .number a, .number b =>
    if b == 0 then .error .divisionByZero else .ok (.number (a / b))
  | .remainder, .number a, .number b =>
    if b == 0 then .error .moduloByZero else .ok (.number (a - Number.floor (a / b) * b))
  | .and, .boolean a, .boolean b => .ok (.boolean (a && b))
  | .or, .boolean a, .boolean b => .ok (.boolean (a || b))
  | .equal, a, b => .ok (.boolean (a.equal b))
  | .different, a, b => .ok (.boolean (!a.equal b))
  | .less, a, b => compare (fun x y => x < y) (fun s t => Text.precedes s t) a b
  | .greater, a, b => compare (fun x y => y < x) (fun s t => Text.precedes t s) a b
  | .lessEqual, a, b => compare (fun x y => x ≤ y) (fun s t => !Text.precedes t s) a b
  | .greaterEqual, a, b => compare (fun x y => y ≤ x) (fun s t => !Text.precedes s t) a b
  | _, _, _ => .error .invalidOperands

end Operation

namespace Value

/-- How far from the start of a sequence an index points. Negative ones count from the end. -/
def offset (index : Float) (length : Nat) (outside : RuntimeError) : Except RuntimeError Nat :=
  if Number.fraction index != 0 then .error .fractionalIndex
  else
    let size := Number.nearest length 1
    let index := if index < 0 then index + size else index
    if index < 0 || size ≤ index then .error outside else .ok index.toUInt64.toNat

/-- The position that an index means in a sequence. -/
def position (index : Float) (length : Nat) (outside : RuntimeError) :
    Except RuntimeError (Fin length) :=
  match offset index length outside with
  | .error cause => .error cause
  | .ok p => if h : p < length then .ok ⟨p, h⟩ else .error outside

/-- A character of a string, as a string. -/
def character (s : String) (index : Float) : Except RuntimeError Value :=
  (position index s.toList.length .stringIndex).map fun p =>
    .string (String.ofList [s.toList.get p])

/-- An element of an array. -/
def element (items : List Value) (index : Float) : Except RuntimeError Value :=
  (position index items.length .arrayIndex).map fun p => items.get p

/-- The characters of a string or the items of an array, with their type. -/
def elements? : Value → Option (Ty × List Value)
  | .string s => some (.string, s.toList.map fun c => .string (String.ofList [c]))
  | .array element items => some (element, items)
  | _ => none

/-- The value of a type that a word of input denotes. -/
def ofInput (word : String) : Ty → Except RuntimeError Value
  | .boolean =>
    if word ∈ ["true", "TRUE", "1", "t", "T"] then .ok (.boolean true)
    else if word ∈ ["false", "FALSE", "0", "f", "F"] then .ok (.boolean false)
    else .error .notBoolean
  | .number =>
    match Number.read word.toList with
    | some x => .ok (.number x)
    | none => .error .notNumber
  | .string => .ok (.string word)
  | _ => .error .invalidOperand

end Value

end Offside
