/-!
The reserved words and the operators of the language, with their spellings, and the way a run of
symbols is cut into operators.
-/

namespace Offside

inductive Keyword where
  | ifWord | elseWord | whileWord | forWord
  | booleanWord | numberWord | stringWord | arrayWord
  | defWord | returnWord | printWord | readWord
deriving DecidableEq

namespace Keyword

def all : List Keyword :=
  [.ifWord, .elseWord, .whileWord, .forWord, .booleanWord, .numberWord, .stringWord, .arrayWord,
   .defWord, .returnWord, .printWord, .readWord]

def spelling : Keyword → String
  | .ifWord => "if"
  | .elseWord => "else"
  | .whileWord => "while"
  | .forWord => "for"
  | .booleanWord => "boolean"
  | .numberWord => "number"
  | .stringWord => "string"
  | .arrayWord => "array"
  | .defWord => "def"
  | .returnWord => "return"
  | .printWord => "print"
  | .readWord => "read"

def ofSpelling? (s : String) : Option Keyword :=
  all.find? fun keyword => keyword.spelling = s

end Keyword

inductive Operator where
  | dot | comma | plus | minus | asterisk | slash | percent | bang | bar | ampersand
  | openParen | closeParen | openSquare | closeSquare | openCurly | closeCurly
  | equals | plusEquals | minusEquals | asteriskEquals | slashEquals | percentEquals
  | barEquals | ampersandEquals | colon | equalsEquals | lessThan | greaterThan
  | lessThanEquals | greaterThanEquals | notEquals
deriving DecidableEq

namespace Operator

def all : List Operator :=
  [.dot, .comma, .plus, .minus, .asterisk, .slash, .percent, .bang, .bar, .ampersand,
   .openParen, .closeParen, .openSquare, .closeSquare, .openCurly, .closeCurly,
   .equals, .plusEquals, .minusEquals, .asteriskEquals, .slashEquals, .percentEquals,
   .barEquals, .ampersandEquals, .colon, .equalsEquals, .lessThan, .greaterThan,
   .lessThanEquals, .greaterThanEquals, .notEquals]

/-- No spelling is longer than two characters, and each character of one is an operator of its
own. -/
def characters : Operator → List Char
  | .dot => ['.']
  | .comma => [',']
  | .plus => ['+']
  | .minus => ['-']
  | .asterisk => ['*']
  | .slash => ['/']
  | .percent => ['%']
  | .bang => ['!']
  | .bar => ['|']
  | .ampersand => ['&']
  | .openParen => ['(']
  | .closeParen => [')']
  | .openSquare => ['[']
  | .closeSquare => [']']
  | .openCurly => ['\x7b']
  | .closeCurly => ['\x7d']
  | .equals => ['=']
  | .plusEquals => ['+', '=']
  | .minusEquals => ['-', '=']
  | .asteriskEquals => ['*', '=']
  | .slashEquals => ['/', '=']
  | .percentEquals => ['%', '=']
  | .barEquals => ['|', '=']
  | .ampersandEquals => ['&', '=']
  | .colon => [':']
  | .equalsEquals => ['=', '=']
  | .lessThan => ['<']
  | .greaterThan => ['>']
  | .lessThanEquals => ['<', '=']
  | .greaterThanEquals => ['>', '=']
  | .notEquals => ['!', '=']

def spelling (op : Operator) : String :=
  String.ofList op.characters

def ofCharacters? (s : List Char) : Option Operator :=
  all.find? fun op => op.characters = s

def ofSpelling? (s : String) : Option Operator :=
  ofCharacters? s.toList

theorem ofCharacters?_characters (op : Operator) : ofCharacters? op.characters = some op := by
  cases op <;> decide

theorem length_characters (op : Operator) :
    op.characters.length = 1 ∨ op.characters.length = 2 := by
  cases op <;> decide

/-- The operator that the first `n` characters of a run spell. -/
def first? (run : List Char) (n : Nat) : Option Operator :=
  all.find? fun op => op.characters.length = n && op.characters.isPrefixOf run

/-- The operator that is spelled by the longest of the first parts of a run that have up to `n`
characters. -/
def backOff (run : List Char) : Nat → Option Operator
  | 0 => none
  | n + 1 =>
    match first? run (n + 1) with
    | some op => some op
    | none => backOff run n

/-- The operator at the front of a run, the longest that fits. -/
def longest? (run : List Char) : Option Operator :=
  backOff run run.length

/-- The operators at the front of a run of symbols, always the longest that fits, and what is left
of the run where none does. -/
def munch (run : List Char) : List Operator × List Char :=
  match run with
  | [] => ([], [])
  | c :: s =>
    match longest? (c :: s) with
    | some op =>
      let (ops, rest) := munch ((c :: s).drop op.characters.length)
      (op :: ops, rest)
    | none => ([], c :: s)
termination_by run.length
decreasing_by
  have := op.length_characters
  simp only [List.length_drop, List.length_cons]
  omega

end Operator

end Offside
