import Offside.Proofs.Results
import Offside.Token.Lexer

/-!
Tokens of lines that have other numbers. A line gives the same tokens whatever its number is, in the
same columns, and a fault in it is in the same column.
-/

namespace Offside

/-- The same column of the line that has another number now. -/
def Location.renumber (g : Nat → Nat) (loc : Location) : Location :=
  ⟨g loc.line, loc.column⟩

def SyntaxFault.renumber (g : Nat → Nat) (fault : SyntaxFault) : SyntaxFault :=
  ⟨fault.cause, fault.location.renumber g⟩

namespace Token

def renumber (g : Nat → Nat) (t : Token) : Token :=
  ⟨t.kind, t.location.renumber g⟩

/-- The tokens, or the fault, of lines that have other numbers now. -/
def renumbered (g : Nat → Nat) :
    Except SyntaxFault (List Token) → Except SyntaxFault (List Token) :=
  mapBoth (SyntaxFault.renumber g) (List.map (renumber g))

end Token

variable (g : Nat → Nat)

namespace Lexeme

open Token (renumber renumbered)

theorem adjacent_renumber (loc : Location) (ops : List Operator) :
    adjacent (loc.renumber g) ops = (adjacent loc ops).map (renumber g) := by
  induction ops generalizing loc with
  | nil => rfl
  | cons op ops ih =>
    exact congrArg (⟨.operator op, loc.renumber g⟩ :: ·) (ih (loc.advance op.characters.length))

theorem tokens_renumber (loc : Location) (rest : List Char) (l : Lexeme) :
    l.tokens (loc.renumber g) rest = renumbered g (l.tokens loc rest) := by
  cases l with
  | number digits =>
    unfold tokens
    dsimp only
    split <;> rfl
  | word letters => rfl
  | text quote contents => rfl
  | symbols run =>
    unfold tokens
    dsimp only
    split
    · exact congrArg Except.ok (adjacent_renumber g loc _)
    · rfl

end Lexeme

namespace Token

theorem ofRest_renumber (loc : Location) (s : List Char) :
    ofRest (loc.renumber g) s = renumbered g (ofRest loc s) := by
  induction loc, s using ofRest.induct with
  | case1 loc =>
    rw [ofRest, ofRest]
    rfl
  | case2 loc c r hblank ih =>
    rw [ofRest, ofRest, if_pos hblank, if_pos hblank]
    exact ih
  | case3 loc c r hblank hcut =>
    rw [ofRest, ofRest, if_neg hblank, if_neg hblank]
    split
    · rfl
    · case h_2 heq => cases hcut.symm.trans heq
  | case4 loc c r hblank l rest hcut ih =>
    rw [ofRest, ofRest, if_neg hblank, if_neg hblank]
    split
    · case h_1 heq => cases hcut.symm.trans heq
    · case h_2 heq =>
      cases hcut.symm.trans heq
      rw [Lexeme.tokens_renumber]
      refine mapBoth_bind _ fun tokens => ?_
      refine (congrArg (· >>= _) ih).trans (mapBoth_bind _ fun more => ?_)
      exact congrArg Except.ok List.map_append.symm

/-- The character that indents is known without the number of the line. -/
theorem ofLine_renumber (used : Option Char) (n : Nat) (line : List Char) :
    ofLine used (g n) line =
      mapBoth (SyntaxFault.renumber g) (Prod.map id (List.map (renumber g)))
        (ofLine used n line) := by
  unfold ofLine
  dsimp only
  split
  · rfl
  · split
    · rfl
    · refine (congrArg (· >>= _) (ofRest_renumber g ⟨n, _⟩ _)).trans ?_
      exact mapBoth_bind _ fun tokens => rfl

/-- The lines from line `n` on have other numbers that follow each other as well. -/
theorem ofLines_renumber {g : Nat → Nat} {n : Nat} (h : ∀ k, n ≤ k → g (k + 1) = g k + 1)
    (used : Option Char) (lines : List (List Char)) :
    ofLines used (g n) lines = renumbered g (ofLines used n lines) := by
  induction lines generalizing used n with
  | nil => rfl
  | cons line lines ih =>
    rw [ofLines, ofLines, ofLine_renumber]
    refine mapBoth_bind _ fun read => ?_
    obtain ⟨used', tokens⟩ := read
    have hrest := ih (fun k hk => h k (Nat.le_of_succ_le hk)) used'
    rw [h n (Nat.le_refl n)] at hrest
    refine (congrArg (· >>= _) hrest).trans (mapBoth_bind _ fun rest => ?_)
    exact congrArg Except.ok List.map_append.symm

end Token

end Offside
