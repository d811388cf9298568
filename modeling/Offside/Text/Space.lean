import Offside.Text.CharClass

/-!
White space, and the two ways a text is cut at it: into the lines of a source text and into the
words of an input line.
-/

namespace Offside.Text

/-- The characters with the property White_Space of Unicode 17.0. -/
def whiteSpace : CharClass where
  ranges :=
    [(0x9, 0xD), (0x20, 0x20), (0x85, 0x85), (0xA0, 0xA0), (0x1680, 0x1680), (0x2000, 0x200A),
     (0x2028, 0x2029), (0x202F, 0x202F), (0x205F, 0x205F), (0x3000, 0x3000)]

def isSpace (c : Char) : Bool :=
  whiteSpace.contains c

/-- Put a character in front of the first piece, which it begins if there is none. -/
def attach (c : Char) : List (List Char) → List (List Char)
  | [] => [[c]]
  | piece :: pieces => (c :: piece) :: pieces

/-- The lines of a text. A line feed ends a line and takes one carriage return in front of it
along; a text that ends in a line feed has no empty line behind it. -/
def lines : List Char → List (List Char)
  | [] => []
  | '\n' :: s => [] :: lines s
  | '\r' :: '\n' :: s => [] :: lines s
  | c :: s => attach c (lines s)

/-- The maximal runs of characters that are not white space. -/
def words : List Char → List (List Char)
  | [] => []
  | [c] => if isSpace c then [] else [[c]]
  | c :: d :: s =>
    if isSpace c then words (d :: s)
    else if isSpace d then [c] :: words (d :: s)
    else attach c (words (d :: s))

end Offside.Text
