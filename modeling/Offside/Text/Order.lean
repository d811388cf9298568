/-!
The order of texts.
-/

namespace Offside.Text

/-- The first text stands before the second: at the first difference its character has the smaller
code point, or it ends there. -/
def precedes : List Char → List Char → Bool
  | _, [] => false
  | [], _ :: _ => true
  | c :: s, d :: t => if c = d then precedes s t else c.toNat < d.toNat

end Offside.Text
