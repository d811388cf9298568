import Offside.Diagnostic

/-!
Why a text is not a program.
-/

namespace Offside

/-- What the reader of a program misses at the place where it stops. -/
inductive Expectation where
  | endOfFile | indentation | lineEnd | lineEndAfterElse | expression | operand
  | operatorOrLineEnd | operatorOrCloseParen | closeSquare | commaOrCloseParen | commaOrCloseSquare
  | openParen | colon | typeName | lessThanAfterArray | greaterThan
  | functionName | parameterName | loopVariable
  | ifBlock | elseBlock | whileBlock | forBlock | functionBody
deriving DecidableEq

namespace Expectation

def display : Expectation → String
  | .endOfFile => "end of file"
  | .indentation => "indentation"
  | .lineEnd => "end of line"
  | .lineEndAfterElse => "end of line after else"
  | .expression => "expression"
  | .operand => "open parenthesis, unary operator or operand"
  | .operatorOrLineEnd => "operator or end of expression"
  | .operatorOrCloseParen => "binary operator or closing parenthesis"
  | .closeSquare => "closing square bracket"
  | .commaOrCloseParen => "comma or closing parenthesis"
  | .commaOrCloseSquare => "comma or closing square bracket"
  | .openParen => "open parenthesis"
  | .colon => "colon"
  | .typeName => "type name"
  | .lessThanAfterArray => "'<' after array"
  | .greaterThan => "'>'"
  | .functionName => "function name"
  | .parameterName => "parameter name"
  | .loopVariable => "loop variable name"
  | .ifBlock => "if block"
  | .elseBlock => "else block"
  | .whileBlock => "while block"
  | .forBlock => "for block"
  | .functionBody => "function body"

end Expectation

inductive SyntaxError where
  | mixedIndentation
  | wordInNumber
  | openQuote
  | unknownSymbol
  | expected (what : Expectation)
  | unexpectedElse
  | unexpectedIndentation
  | duplicateParameter
deriving DecidableEq

namespace SyntaxError

def message : SyntaxError → String
  | .mixedIndentation => "inconsistent use of tabs and spaces in indentation"
  | .wordInNumber => "unexpected symbol in numeric value"
  | .openQuote => "expected ending quote"
  | .unknownSymbol => "unknown symbol"
  | .expected what => "expected " ++ what.display
  | .unexpectedElse => "unexpected else"
  | .unexpectedIndentation => "unexpected indentation"
  | .duplicateParameter => "duplicate parameter name"

end SyntaxError

structure SyntaxFault where
  cause : SyntaxError
  location : Location
deriving DecidableEq

def SyntaxFault.diagnostic (fault : SyntaxFault) : Diagnostic :=
  .malformed fault.cause.message fault.location

end Offside
