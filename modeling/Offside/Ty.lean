import Offside.Outline

/-!
The types of the language, and the two relations between them that inference and assignment need:
the common type of the elements of a list, and the slots that take a value.
-/

namespace Offside

/-- `none` is the type of no value: what a function without result returns, and the element type
of an empty list. `list` is the type of a list literal, whose elements are `mixed` when they
disagree; as soon as the list is stored it becomes an `array`. `object` is kept for types that the
language cannot write yet. -/
inductive Ty where
  | none | boolean | number | string | mixed
  | array (element : Ty)
  | list (element : Ty)
  | object (template : Ty)
deriving DecidableEq, Inhabited

namespace Ty

def display : Ty → String
  | .none => "none"
  | .boolean => "boolean"
  | .number => "number"
  | .string => "string"
  | .mixed => "mixed"
  | .array element => "array<" ++ element.display ++ ">"
  | .list element => "list<" ++ element.display ++ ">"
  | .object template => "object<" ++ template.display ++ ">"

def outline : Ty → Outline
  | .none => .word "None"
  | .boolean => .word "Boolean"
  | .number => .word "Number"
  | .string => .word "String"
  | .mixed => .word "Mixed"
  | .array element => .wrapped "Array" element.outline
  | .list element => .wrapped "List" element.outline
  | .object template => .wrapped "Object" template.outline

def arrayElement? : Ty → Option Ty
  | .array element => some element
  | _ => Option.none

def listElement? : Ty → Option Ty
  | .list element => some element
  | _ => Option.none

def objectTemplate? : Ty → Option Ty
  | .object template => some template
  | _ => Option.none

def isArray (t : Ty) : Bool :=
  t.arrayElement?.isSome

def isList (t : Ty) : Bool :=
  t.listElement?.isSome

def isObject (t : Ty) : Bool :=
  t.objectTemplate?.isSome

def isPrimitive : Ty → Bool
  | .boolean | .number | .string => true
  | _ => false

/-- A variable of the type can exist while a program runs. -/
def isConcrete : Ty → Bool
  | .boolean | .number | .string => true
  | .array element => element.isConcrete
  | _ => false

/-- The type that a list element takes when the list is stored: a list inside a list becomes an
array, unless its own elements disagree. -/
def asElement : Ty → Ty
  | .list .mixed => .mixed
  | .list element => .array element.asElement
  | t => t

/-- The common type of two list elements. The unknown type goes along with every other. -/
def merge? (a b : Ty) : Option Ty :=
  if a = .mixed ∨ b = .mixed then Option.none
  else if a = b then some a
  else match a, b with
    | .none, t => some t
    | t, .none => some t
    | .array a, .array b => (merge? a b).map .array
    | _, _ => Option.none

/-- The type of a list literal whose elements have these types. -/
def ofListLiteral (elements : List Ty) : Ty :=
  match elements.map asElement with
  | [] => .list .none
  | first :: rest => .list ((rest.foldlM merge? first).getD .mixed)

/-- A slot of the first type takes a value of the second: the types are equal up to the lists in
the second one, and an element type that is not known yet fits everywhere. -/
def accepts : Ty → Ty → Bool
  | .array _, .array .mixed | .array _, .list .mixed => false
  | .array target, .array .none | .array target, .list .none => target.isConcrete
  | .array target, .array element | .array target, .list element => target.accepts element
  | target, source => target.isConcrete && target = source

/-- The type of a variable that is declared without one. -/
def concretize? (initializer : Ty) : Option Ty :=
  let t := match initializer with
    | .list element => .array element
    | t => t
  if t.isConcrete then some t else Option.none

end Ty

end Offside
