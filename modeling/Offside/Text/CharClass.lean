/-!
A class of characters, given by the ranges of code points it consists of.
-/

namespace Offside.Text

/-- The ranges hold their first and their last code point, stand in increasing order and do not
touch. -/
structure CharClass where
  ranges : List (Nat × Nat)

namespace CharClass

variable (cls : CharClass) (c : Char)

def contains : Bool :=
  cls.ranges.any fun (first, last) => first ≤ c.toNat && c.toNat ≤ last

theorem contains_iff :
    cls.contains c = true ↔ ∃ r ∈ cls.ranges, r.1 ≤ c.toNat ∧ c.toNat ≤ r.2 := by
  simp [contains]

end CharClass

end Offside.Text
