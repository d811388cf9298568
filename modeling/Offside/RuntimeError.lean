import Offside.Diagnostic
import Offside.Store

/-!
Why a program cannot go on.
-/

namespace Offside

inductive InputError where
  | exhausted
  | notText
deriving DecidableEq

def InputError.message : InputError → String
  | .exhausted => "unexpected end of input"
  | .notText => "failed to read input: stream did not contain valid UTF-8"

inductive OutputError where
  | full
  | flush
deriving DecidableEq

def OutputError.message : OutputError → String
  | .full => "failed to write output: output full"
  | .flush => "failed to write output: flush failed"

inductive RuntimeError where
  | store (e : StoreError)
  | input (e : InputError)
  | output (e : OutputError)
  | divisionByZero
  | moduloByZero
  | fractionalIndex
  | stringIndex
  | arrayIndex
  | callDepth (limit : Nat)
  | missingResult
  | notBoolean
  | notNumber
  | undetermined (name : String)
  | bare (name : String)
  | incompatibleResult
  | incompatibleArgument (param function : String)
  | argumentCount
  | voidValue
  | invalidOperand
  | invalidOperands
  | notAssignable
  | invalidRange
  | notCondition
deriving DecidableEq

def RuntimeError.message : RuntimeError → String
  | .store e => e.message
  | .input e => e.message
  | .output e => e.message
  | .divisionByZero => "division by 0"
  | .moduloByZero => "modulo by 0"
  | .fractionalIndex => "non-integer number used as index"
  | .stringIndex => "string index out of bounds"
  | .arrayIndex => "array index out of bounds"
  | .callDepth limit => "maximum call depth of " ++ toString limit ++ " exceeded"
  | .missingResult => "non-void function finished execution without returning any value"
  | .notBoolean => "invalid input for boolean type"
  | .notNumber => "invalid input for number type"
  | .undetermined name => "cannot infer the type of " ++ name
  | .bare name => name ++ " has neither a type nor an initializer"
  | .incompatibleResult => "incompatible return type"
  | .incompatibleArgument param function =>
    "incompatible type for argument " ++ param ++ " of " ++ function
  | .argumentCount => "wrong number of arguments"
  | .voidValue => "void function used as a value"
  | .invalidOperand => "invalid operand"
  | .invalidOperands => "invalid operands"
  | .notAssignable => "rvalue as left hand side operand of an assignment"
  | .invalidRange => "invalid range"
  | .notCondition => "condition must be boolean"

/-- The location is that of the statement being executed, if there was one. -/
structure RuntimeFault where
  cause : RuntimeError
  location : Option Location
deriving DecidableEq

def RuntimeFault.diagnostic (fault : RuntimeFault) : Diagnostic :=
  .failed fault.cause.message fault.location

end Offside
