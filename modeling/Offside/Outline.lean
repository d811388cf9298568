import Offside.Text.Quoted

/-!
Outlines: the text form of structured data, on one line or with a line for every part.
-/

namespace Offside

inductive Brackets where
  | round | curly | square
deriving DecidableEq

inductive Outline where
  | word (text : String)
  | field (name : String) (value : Outline)
  | group (brackets : Brackets) (name : String) (items : List Outline)

namespace Outline

def string (s : String) : Outline :=
  .word (Text.quote s)

def boolean (b : Bool) : Outline :=
  .word (if b then "true" else "false")

def natural (n : Nat) : Outline :=
  .word (toString n)

def list (items : List Outline) : Outline :=
  .group .square "" items

def record (name : String) (fields : List (String × Outline)) : Outline :=
  .group .curly name (fields.map fun (name, value) => .field name value)

def wrapped (name : String) (value : Outline) : Outline :=
  .group .round name [value]

def optional : Option Outline → Outline
  | none => .word "None"
  | some value => wrapped "Some" value

mutual

/-- The outline on one line. -/
def flat : Outline → String
  | .word text => text
  | .field name value => name ++ ": " ++ value.flat
  | .group .round name items => name ++ "(" ++ flatItems items ++ ")"
  | .group .curly name items => name ++ " \x7b " ++ flatItems items ++ " \x7d"
  | .group .square name items => name ++ "[" ++ flatItems items ++ "]"

def flatItems : List Outline → String
  | [] => ""
  | [item] => item.flat
  | item :: items => item.flat ++ ", " ++ flatItems items

end

def margin (depth : Nat) : String :=
  String.ofList (List.replicate (4 * depth) ' ')

mutual

/-- The outline with each item of a group on lines of its own, four spaces further in and with a
comma behind it. A list without items stays on its line. -/
def tall (depth : Nat) : Outline → String
  | .word text => text
  | .field name value => name ++ ": " ++ value.tall depth
  | .group .round name items =>
    name ++ "(\n" ++ tallItems (depth + 1) items ++ margin depth ++ ")"
  | .group .curly name items =>
    name ++ " \x7b\n" ++ tallItems (depth + 1) items ++ margin depth ++ "\x7d"
  | .group .square name [] => name ++ "[]"
  | .group .square name items =>
    name ++ "[\n" ++ tallItems (depth + 1) items ++ margin depth ++ "]"

def tallItems (depth : Nat) : List Outline → String
  | [] => ""
  | item :: items => margin depth ++ item.tall depth ++ ",\n" ++ tallItems depth items

end

end Outline

end Offside
