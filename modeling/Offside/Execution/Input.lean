import Offside.RuntimeError
import Offside.Text.Space

/-!
The input of a program: words, which are taken from it line by line.
-/

namespace Offside

/-- The bytes behind the line that was taken last, and the words of that line that are not used
yet. -/
structure Input where
  unread : List UInt8
  pending : List String
deriving DecidableEq

namespace Input

def ofBytes (bytes : ByteArray) : Input :=
  ⟨bytes.data.toList, []⟩

/-- The first line, with the line feed that ends it, and the bytes behind it. -/
def cutLine : List UInt8 → List UInt8 × List UInt8
  | [] => ([], [])
  | b :: bytes =>
    if b = 0x0A then ([b], bytes)
    else
      let (line, rest) := cutLine bytes
      (b :: line, rest)

theorem length_cutLine_le (bytes : List UInt8) : (cutLine bytes).2.length ≤ bytes.length := by
  induction bytes with
  | nil => simp [cutLine]
  | cons b bytes ih =>
    simp only [cutLine]
    split
    · simp
    · simp only [List.length_cons]; omega

theorem length_cutLine_lt (b : UInt8) (bytes : List UInt8) :
    (cutLine (b :: bytes)).2.length < (b :: bytes).length := by
  have := length_cutLine_le bytes
  simp only [cutLine]
  split
  · simp
  · simp only [List.length_cons]; omega

/-- The text of a line, if its bytes are the encoding of one. -/
def decode (line : List UInt8) : Option String :=
  String.fromUTF8? ⟨line.toArray⟩

/-- The next word of some bytes, and the input behind it. A line that is no text is lost. -/
def wordOfBytes (bytes : List UInt8) : Except InputError String × Input :=
  match bytes with
  | [] => (.error .exhausted, ⟨[], []⟩)
  | b :: more =>
    let rest := (cutLine (b :: more)).2
    match decode (cutLine (b :: more)).1 with
    | none => (.error .notText, ⟨rest, []⟩)
    | some line =>
      match Text.words line.toList with
      | [] => wordOfBytes rest
      | word :: words => (.ok (String.ofList word), ⟨rest, words.map String.ofList⟩)
termination_by bytes.length
decreasing_by exact length_cutLine_lt b more

/-- The next word, and the input behind it. -/
def word (input : Input) : Except InputError String × Input :=
  match input.pending with
  | word :: words => (.ok word, ⟨input.unread, words⟩)
  | [] => wordOfBytes input.unread

end Input

end Offside
