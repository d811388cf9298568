import Offside.Diagnostic
import Offside.Store

/-!
Why a program is not well typed.
-/

namespace Offside

inductive SemanticError where
  | store (e : StoreError)
  | incompatible (name : String)
  | undetermined (name : String) (ty : Ty)
  | bare (name : String)
  | duplicateParameter
  | returnOutside
  | missingResult
  | unexpectedResult
  | incompatibleResult
  | incompatibleArgument (param function : String)
  | argumentCount
  | voidValue
  | invalidOperand
  | invalidOperands
  | notAssignable
  | notReadable
  | invalidRange
  | notCondition
deriving DecidableEq

def SemanticError.message : SemanticError → String
  | .store e => e.message
  | .incompatible name => "incompatible type for assignment to " ++ name
  | .undetermined name ty => "cannot infer the type of " ++ name ++ " from " ++ ty.display
  | .bare name => name ++ " has neither a type nor an initializer"
  | .duplicateParameter => "duplicate parameter name"
  | .returnOutside => "return outside of a function"
  | .missingResult => "non-void function must return a value"
  | .unexpectedResult => "void function cannot return a value"
  | .incompatibleResult => "incompatible return type"
  | .incompatibleArgument param function =>
    "incompatible type for argument " ++ param ++ " of " ++ function
  | .argumentCount => "wrong number of arguments"
  | .voidValue => "void function used as a value"
  | .invalidOperand => "invalid operand"
  | .invalidOperands => "invalid operands"
  | .notAssignable => "rvalue as left hand side operand of an assignment"
  | .notReadable => "rvalue as operand of read"
  | .invalidRange => "invalid range"
  | .notCondition => "condition must be boolean"

/-- The location is that of the statement being checked, if there was one. -/
structure SemanticFault where
  cause : SemanticError
  location : Option Location
deriving DecidableEq

def SemanticFault.diagnostic (fault : SemanticFault) : Diagnostic :=
  .rejected fault.cause.message fault.location

end Offside
