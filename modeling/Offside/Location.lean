/-!
Positions in a source text.
-/

namespace Offside

/-- A line and a column, both counted from one. Columns count characters. -/
structure Location where
  line : Nat
  column : Nat
deriving DecidableEq, Inhabited

namespace Location

/-- The position `n` characters further on the same line. -/
def advance (loc : Location) (n : Nat) : Location :=
  ⟨loc.line, loc.column + n⟩

def display (loc : Location) : String :=
  "line " ++ toString loc.line ++ ", col " ++ toString loc.column

end Location

end Offside
