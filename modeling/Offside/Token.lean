import Offside.Lexicon
import Offside.Location
import Offside.Number.Text

/-!
The tokens of a source text. Every line that is not blank gives its indentation, its words and
symbols, and a line feed; the text ends with one end-of-file token.
-/

namespace Offside

inductive TokenKind where
  | boolean (value : Bool)
  | number (value : Float)
  | string (value : String)
  | operator (op : Operator)
  | keyword (word : Keyword)
  | identifier (name : String)
  | indent (width : Nat)
  | lineFeed
  | endOfFile
deriving DecidableEq

namespace TokenKind

def booleanSpelling (b : Bool) : String :=
  if b then "true" else "false"

/-- A text that can be read as this token, if the token has a text of its own. A string is written
between the quotes that it does not contain. -/
def spelling : TokenKind → Option String
  | .boolean b => some (booleanSpelling b)
  | .number x => some (Number.spelling x)
  | .string s => some (if '"' ∈ s.toList then "'" ++ s ++ "'" else "\"" ++ s ++ "\"")
  | .operator op => some op.spelling
  | .keyword word => some word.spelling
  | .identifier name => some name
  | .indent _ | .lineFeed | .endOfFile => none

/-- The contents of a token in a listing. -/
def label : TokenKind → String
  | .boolean b => booleanSpelling b
  | .number x => Number.sixPlaces x
  | .string s => "\"" ++ s ++ "\""
  | .operator op => op.spelling
  | .keyword word => "KW:" ++ word.spelling
  | .identifier name => "ID:" ++ name
  | .indent width => "INDENT:" ++ toString width
  | .lineFeed => "LF"
  | .endOfFile => "EOF"

end TokenKind

structure Token where
  kind : TokenKind
  location : Location
deriving DecidableEq

namespace Token

def display (t : Token) : String :=
  "[" ++ t.kind.label ++ "|" ++ toString t.location.line ++ "," ++ toString t.location.column ++ "]"

/-- On a coloured terminal reserved words are cyan and the tokens of the layout grey. -/
def coloured (t : Token) : String :=
  match t.kind with
  | .keyword _ => "\x1b[36m" ++ t.display ++ "\x1b[0m"
  | .indent _ | .lineFeed | .endOfFile => "\x1b[38;5;8m" ++ t.display ++ "\x1b[0m"
  | _ => t.display

/-- The tokens, each with a space behind it, one line of the text to a line. -/
def listing (colour : Bool) (tokens : List Token) : String :=
  String.join (tokens.map fun t =>
    let text := if colour then t.coloured else t.display
    match t.kind with
    | .lineFeed | .endOfFile => text ++ " \n"
    | _ => text ++ " ")

end Token

end Offside
