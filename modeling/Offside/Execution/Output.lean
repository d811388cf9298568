/-!
The output of a program: bytes, of which there may be room for a limited number only.
-/

namespace Offside

/-- `room` is the number of bytes that are still taken, if there is a limit. -/
structure Output where
  written : ByteArray
  room : Option Nat
  flushes : Bool

namespace Output

/-- An output that takes everything. -/
def unlimited : Output :=
  ⟨.empty, none, true⟩

/-- The output behind a text, and whether there was room for all of it. What fits is written. -/
def write (output : Output) (text : String) : Bool × Output :=
  let bytes := text.toUTF8
  match output.room with
  | none => (true, { output with written := output.written ++ bytes })
  | some room =>
    if bytes.size ≤ room then
      (true, { output with written := output.written ++ bytes, room := some (room - bytes.size) })
    else
      (false, { output with written := output.written ++ bytes.extract 0 room, room := some 0 })

end Output

end Offside
