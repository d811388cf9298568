import Offside.SyntaxError
import Offside.Token
import Offside.Number.Reading
import Offside.Text.Alphabetic

/-!
Lexemes: the pieces of a line that stand for tokens. Cutting one off loses nothing of the line.
-/

namespace Offside

/-- Numbers, words, texts between quotes, and runs of symbols, which hold one operator or more. -/
inductive Lexeme where
  | number (digits : List Char)
  | word (letters : List Char)
  | text (quote : Char) (contents : List Char)
  | symbols (run : List Char)
deriving DecidableEq

namespace Lexeme

/-- What may stand between two lexemes. -/
def isBlank (c : Char) : Bool :=
  c = ' ' || c = '\t' || c = '\r' || c = '\n' || c = '\x0c'

def isWordStart (c : Char) : Bool :=
  c.isAlpha || c = '_'

def isWordChar (c : Char) : Bool :=
  c.isAlphanum || c = '_'

def isQuote (c : Char) : Bool :=
  c = '"' || c = '\''

/-- All that begins no other lexeme, whether an operator is spelled with it or not. -/
def isSymbol (c : Char) : Bool :=
  !(isBlank c || isWordChar c || isQuote c)

/-- The characters that a lexeme takes up in a line. -/
def characters : Lexeme → List Char
  | .number digits => digits
  | .word letters => letters
  | .text quote contents => quote :: contents ++ [quote]
  | .symbols run => run

/-- The number that begins with the digit `c`, and the text behind it: digits, then a point and
digits that may both be missing. -/
def cutNumber (c : Char) (s : List Char) : List Char × List Char :=
  let whole := c :: s.takeWhile Char.isDigit
  match s.dropWhile Char.isDigit with
  | '.' :: r => (whole ++ '.' :: r.takeWhile Char.isDigit, r.dropWhile Char.isDigit)
  | r => (whole, r)

/-- The lexeme that begins with `c`, and the text behind it, unless a quote is never closed. -/
def cut (c : Char) (s : List Char) : Option (Lexeme × List Char) :=
  if c.isDigit then
    let (digits, rest) := cutNumber c s
    some (.number digits, rest)
  else if isWordStart c then
    some (.word (c :: s.takeWhile isWordChar), s.dropWhile isWordChar)
  else if isQuote c then
    match s.dropWhile (· ≠ c) with
    | [] => none
    | _ :: rest => some (.text c (s.takeWhile (· ≠ c)), rest)
  else
    some (.symbols (c :: s.takeWhile isSymbol), s.dropWhile isSymbol)

theorem cutNumber_append (c : Char) (s : List Char) :
    (cutNumber c s).1 ++ (cutNumber c s).2 = c :: s := by
  unfold cutNumber
  split
  · next r hr =>
    simp [List.takeWhile_append_dropWhile, ← hr]
  · simp [List.takeWhile_append_dropWhile]

theorem head_dropWhile_ne {c d : Char} {s rest : List Char}
    (h : s.dropWhile (· ≠ c) = d :: rest) : d = c := by
  have := List.head?_dropWhile_not (fun x => decide (x ≠ c)) s
  rw [h] at this
  simpa using this

theorem characters_append_of_cut {c : Char} {s rest : List Char} {l : Lexeme}
    (h : cut c s = some (l, rest)) : l.characters ++ rest = c :: s := by
  unfold cut at h
  split at h
  · obtain ⟨rfl, rfl⟩ := by simpa using h
    exact cutNumber_append c s
  · split at h
    · obtain ⟨rfl, rfl⟩ := by simpa using h
      simp [characters, List.takeWhile_append_dropWhile]
    · split at h
      · split at h
        · simp at h
        · next d r hr =>
          obtain ⟨rfl, rfl⟩ := by simpa using h
          have hd := head_dropWhile_ne hr
          subst hd
          have := List.takeWhile_append_dropWhile (p := (· ≠ d)) (l := s)
          rw [hr] at this
          simpa [characters] using this
      · obtain ⟨rfl, rfl⟩ := by simpa using h
        simp [characters, List.takeWhile_append_dropWhile]

theorem characters_ne_nil_of_cut {c : Char} {s rest : List Char} {l : Lexeme}
    (h : cut c s = some (l, rest)) : l.characters ≠ [] := by
  unfold cut cutNumber at h
  grind [characters]

theorem length_lt_of_cut {c : Char} {s rest : List Char} {l : Lexeme}
    (h : cut c s = some (l, rest)) : rest.length < (c :: s).length := by
  rw [← characters_append_of_cut h, List.length_append]
  have := List.length_pos_iff.2 (characters_ne_nil_of_cut h)
  omega

/-- A number must not run into a word. -/
def runsIntoWord (rest : List Char) : Bool :=
  match rest with
  | c :: _ => Text.alphabetic.contains c || c = '_'
  | [] => false

def wordKind (word : String) : TokenKind :=
  if word = "true" then .boolean true
  else if word = "false" then .boolean false
  else match Keyword.ofSpelling? word with
    | some keyword => .keyword keyword
    | none => .identifier word

/-- Operators that follow each other without a gap, the first one at `loc`. -/
def adjacent (loc : Location) : List Operator → List Token
  | [] => []
  | op :: ops => ⟨.operator op, loc⟩ :: adjacent (loc.advance op.characters.length) ops

/-- The tokens of a lexeme at `loc` in front of a text. -/
def tokens (loc : Location) (rest : List Char) : Lexeme → Except SyntaxFault (List Token)
  | .number digits =>
    if runsIntoWord rest then .error ⟨.wordInNumber, loc.advance digits.length⟩
    else .ok [⟨.number ((Number.read digits).getD 0), loc⟩]
  | .word letters => .ok [⟨wordKind (String.ofList letters), loc⟩]
  | .text _ contents => .ok [⟨.string (String.ofList contents), loc⟩]
  | .symbols run =>
    match Operator.munch run with
    | (ops, []) => .ok (adjacent loc ops)
    | (_, unknown) => .error ⟨.unknownSymbol, loc.advance (run.length - unknown.length)⟩

end Lexeme

end Offside
