import Offside.Location

/-!
What is reported about a program that was given up.
-/

namespace Offside

/-- A program is given up while it is read, while it is checked, or while it runs. The first always
happens at a place in the text. -/
inductive Diagnostic where
  | malformed (message : String) (location : Location)
  | rejected (message : String) (location : Option Location)
  | failed (message : String) (location : Option Location)
deriving DecidableEq

namespace Diagnostic

/-- The bare message, without the stage and the location. -/
def message : Diagnostic → String
  | .malformed message _ | .rejected message _ | .failed message _ => message

def location : Diagnostic → Option Location
  | .malformed _ location => some location
  | .rejected _ location | .failed _ location => location

/-- Give a location to a report that has none. -/
def orAt (loc : Location) : Diagnostic → Diagnostic
  | .rejected message none => .rejected message (some loc)
  | .failed message none => .failed message (some loc)
  | report => report

def place (location : Option Location) : String :=
  match location with
  | some loc => " (" ++ loc.display ++ ")"
  | none => ""

def display : Diagnostic → String
  | .malformed message loc => "Syntax error" ++ place (some loc) ++ ": " ++ message
  | .rejected message location => "Semantic error" ++ place location ++ ": " ++ message
  | .failed message location => "Runtime error" ++ place location ++ ": " ++ message

end Diagnostic

end Offside
