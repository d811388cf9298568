import Offside.Number.Text
import Offside.Ty

/-!
The values that a running program computes with.
-/

namespace Offside

/-- An array remembers the type of its elements, which nothing else tells when it is empty. -/
inductive Value where
  | boolean (b : Bool)
  | number (x : Float)
  | string (s : String)
  | array (element : Ty) (items : List Value)
deriving Inhabited

namespace Value

def ty : Value → Ty
  | .boolean _ => .boolean
  | .number _ => .number
  | .string _ => .string
  | .array element _ => .array element

/-- The value of a variable that is declared without an initial value. -/
def default? : Ty → Option Value
  | .boolean => some (.boolean false)
  | .number => some (.number 0)
  | .string => some (.string "")
  | .array element => if element.isConcrete then some (.array element []) else none
  | _ => none

mutual

/-- The value as one of another type, if it fits. It is changed only in the element types of its
arrays, and an array fits if the common type of the two element types exists and each of its items
fits. -/
def coerce (target : Ty) : Value → Option Value
  | .array element items =>
    match target with
    | .array wanted =>
      if element = .none ∨ (element.merge? wanted).isSome then
        (coerceAll wanted items).map (.array wanted)
      else none
    | _ => none
  | .boolean b => if target = .boolean then some (.boolean b) else none
  | .number x => if target = .number then some (.number x) else none
  | .string s => if target = .string then some (.string s) else none

def coerceAll (target : Ty) : List Value → Option (List Value)
  | [] => some []
  | v :: vs =>
    match v.coerce target, coerceAll target vs with
    | some v, some vs => some (v :: vs)
    | _, _ => none

end

/-- The value of a list literal. Its elements get their common type; elements without one are kept
as they are, under the type of the first. -/
def ofList (items : List Value) : Value :=
  let kept := .array ((items.head?.map ty).getD .none) items
  match items.foldlM (fun common item => Ty.merge? common item.ty) .none with
  | some element =>
    match coerceAll element items with
    | some items => .array element items
    | none => kept
  | none => kept

def asBoolean? : Value → Option Bool
  | .boolean b => some b
  | _ => none

def asNumber? : Value → Option Float
  | .number x => some x
  | _ => none

def asString? : Value → Option String
  | .string s => some s
  | _ => none

mutual

/-- The text that a program prints for the value. -/
def display : Value → String
  | .boolean b => if b then "true" else "false"
  | .number x => Number.general x
  | .string s => s
  | .array _ items => "[" ++ displayAll items ++ "]"

def displayAll : List Value → String
  | [] => ""
  | [v] => v.display
  | v :: vs => v.display ++ ", " ++ displayAll vs

end

mutual

/-- Equality as a program sees it: a number that is not a number differs from itself, and the
element types of arrays count. -/
def equal : Value → Value → Bool
  | .boolean a, .boolean b => a == b
  | .number a, .number b => a == b
  | .string a, .string b => a == b
  | .array element items, .array element' items' => element = element' && equalAll items items'
  | _, _ => false

def equalAll : List Value → List Value → Bool
  | [], [] => true
  | v :: vs, w :: ws => v.equal w && equalAll vs ws
  | _, _ => false

end

/-- The part of the value behind a path of positions in nested arrays. -/
def part? (v : Value) : List Nat → Option Value
  | [] => some v
  | i :: path =>
    match v with
    | .array _ items => (items[i]?).bind fun item => item.part? path
    | _ => none

end Value

end Offside
