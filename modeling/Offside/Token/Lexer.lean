import Offside.Text.Space
import Offside.Token.Lexeme

/-!
The tokens of a source text, read line by line.
-/

namespace Offside.Token

/-- The tokens of the rest of a line, which begins at `loc`. -/
def ofRest (loc : Location) (s : List Char) : Except SyntaxFault (List Token) :=
  match s with
  | [] => .ok [⟨.lineFeed, loc⟩]
  | c :: r =>
    if Lexeme.isBlank c then ofRest (loc.advance 1) r
    else
      match _h : Lexeme.cut c r with
      | none => .error ⟨.openQuote, loc.advance s.length⟩
      | some (lexeme, rest) => do
        let tokens ← lexeme.tokens loc rest
        let more ← ofRest (loc.advance lexeme.characters.length) rest
        return tokens ++ more
termination_by s.length
decreasing_by
  · simp
  · exact Lexeme.length_lt_of_cut ‹_›

/-- The first character of the text that indents is the only one that may. Gives it on, or the
position of the first other one in an indentation. -/
def indentedBy (used : Option Char) (indent : List Char) : Except Nat (Option Char) :=
  match used.or indent.head? with
  | none => .ok none
  | some c =>
    match indent.findIdx? (· ≠ c) with
    | some i => .error i
    | none => .ok (some c)

/-- The tokens of line `n`, with the character that indents after it. -/
def ofLine (used : Option Char) (n : Nat) (line : List Char) :
    Except SyntaxFault (Option Char × List Token) :=
  let indent := line.takeWhile Text.isSpace
  let content := line.dropWhile Text.isSpace
  if content.isEmpty then .ok (used, [])
  else
    match indentedBy used indent with
    | .error i => .error ⟨.mixedIndentation, ⟨n, i + 1⟩⟩
    | .ok used => do
      let tokens ← ofRest ⟨n, indent.length + 1⟩ content
      return (used, ⟨.indent indent.length, ⟨n, 1⟩⟩ :: tokens)

/-- The tokens of the lines from line `n` on. -/
def ofLines (used : Option Char) (n : Nat) : List (List Char) → Except SyntaxFault (List Token)
  | [] => .ok [⟨.endOfFile, ⟨n, 1⟩⟩]
  | line :: lines => do
    let (used, tokens) ← ofLine used n line
    let rest ← ofLines used (n + 1) lines
    return tokens ++ rest

/-- Drop one carriage return from the end of a line. -/
def dropReturn (line : List Char) : List Char :=
  if line.getLast? = some '\r' then line.dropLast else line

/-- The tokens of a source text. The carriage return that belongs to a line feed, and one more at
the end of a line, are not part of the line. -/
def ofSource (source : String) : Except SyntaxFault (List Token) :=
  ofLines none 1 ((Text.lines source.toList).map dropReturn)

end Offside.Token
