import Offside.Proofs.Syntax.BlockDerived

/-!
Programs are read if and only if they are derived, from tokens that end with their only end-of-file
token.
-/

namespace Offside

open Token

/-- A token may stand behind the indentation of a line. -/
def TokenKind.inLine : TokenKind → Bool
  | .indent _ | .endOfFile => false
  | _ => true

/-- All tokens may stand behind the indentation of a line. -/
def Token.InLine (w : List Token) : Prop :=
  ∀ t ∈ w, t.kind.inLine

/-- No token is the end of the program. -/
def Token.Inner (w : List Token) : Prop :=
  ∀ t ∈ w, t.kind ≠ .endOfFile

/-- The tokens end with their only end-of-file token. -/
def Token.Terminated (ts : List Token) : Prop :=
  ∃ w l, ts = w ++ [⟨.endOfFile, l⟩] ∧ Token.Inner w

namespace Token

@[simp]
theorem inner_nil : Token.Inner [] :=
  List.forall_mem_nil _

@[simp]
theorem inner_cons : Token.Inner (t :: w) ↔ t.kind ≠ .endOfFile ∧ Token.Inner w :=
  List.forall_mem_cons

@[simp]
theorem inner_append : Token.Inner (w ++ v) ↔ Token.Inner w ∧ Token.Inner v :=
  List.forall_mem_append

@[simp]
theorem inLine_nil : Token.InLine [] :=
  List.forall_mem_nil _

@[simp]
theorem inLine_cons : Token.InLine (t :: w) ↔ t.kind.inLine ∧ Token.InLine w :=
  List.forall_mem_cons

@[simp]
theorem inLine_append : Token.InLine (w ++ v) ↔ Token.InLine w ∧ Token.InLine v :=
  List.forall_mem_append

theorem InLine.inner (h : Token.InLine w) : Token.Inner w := by
  intro t ht he
  have hline := h t ht
  rw [he] at hline
  cases hline

/-- Nothing stands behind the end of a program. -/
theorem Terminated.nothing_behind (h : Terminated (w ++ ⟨.endOfFile, l⟩ :: behind)) :
    behind = [] := by
  obtain ⟨w', l', he, hi⟩ := h
  rcases List.append_eq_append_iff.1 he with ⟨v, rfl, hv⟩ | ⟨v, rfl, hv⟩
  · cases v with
    | nil => cases hv; rfl
    | cons t v =>
      cases hv
      simp at hi
  · cases v with
    | nil => cases hv; rfl
    | cons t v => simp at hv

theorem Terminated.inner (h : Terminated (w ++ [⟨.endOfFile, l⟩])) : Token.Inner w := by
  obtain ⟨w', l', he, hi⟩ := h
  obtain ⟨rfl, -⟩ := List.append_inj' he rfl
  exact hi

/-- In front of the end, something is left. -/
theorem Terminated.exists_next (h : Terminated (w ++ rest)) (hw : Token.Inner w) :
    ∃ t behind, rest = t :: behind := by
  cases rest with
  | cons t behind => exact ⟨t, behind, rfl⟩
  | nil =>
    obtain ⟨w', l, he, -⟩ := h
    rw [List.append_nil] at he
    simp [he] at hw

end Token

theorem Ty.Derives.inLine (h : Ty.Derives w ty) : Token.InLine w := by
  induction h with
  | array h ih => simp [ih, TokenKind.inLine]
  | _ => simp [TokenKind.inLine]

theorem Param.Derives.inLine (h : Param.Derives w p) : Token.InLine w := by
  cases h with
  | intro h => simp [h.inLine, TokenKind.inLine]

theorem Param.Separated.inLine (h : Param.Separated w ps) : Token.InLine w := by
  induction h with
  | one h => exact h.inLine
  | more h hs ih => simp [h.inLine, ih, TokenKind.inLine]

theorem Param.Elements.inLine (h : Param.Elements w ps) : Token.InLine w := by
  cases h with
  | none => exact inLine_nil
  | some h hn => exact h.inLine

theorem Stmt.Result.inLine (h : Stmt.Result w ty) : Token.InLine w := by
  cases h with
  | none => exact inLine_nil
  | some h => simp [h.inLine, TokenKind.inLine]

theorem Expr.Derives.inLine (h : Expr.Derives r w e) : Token.InLine w := by
  intro t ht
  have hexpr := h.inExpr t ht
  cases hk : t.kind with
  | indent | endOfFile =>
    rw [hk] at hexpr
    cases hexpr
  | _ => rfl

theorem Stmt.Line.inLine (h : Stmt.Line w stmt) : Token.InLine w := by
  cases h with
  | declareTyped ht => simp [ht.inLine, TokenKind.inLine]
  | declareBoth ht he => simp [ht.inLine, he.inLine, TokenKind.inLine]
  | declareInferred he | returnValue he | print he | read he =>
    simp [he.inLine, TokenKind.inLine]
  | «return» => simp [TokenKind.inLine]
  | expr he =>
    obtain ⟨ht, hw⟩ := inLine_cons.1 he.inLine
    exact inLine_cons.2 ⟨ht, inLine_append.2 ⟨hw, by simp [TokenKind.inLine]⟩⟩

theorem Stmt.Header.inLine (h : Stmt.Header w body stmt) : Token.InLine w := by
  cases h with
  | define hp hr => simp [hp.inLine, hr.inLine, TokenKind.inLine]
  | cond he | «while» he | «for» he => simp [he.inLine, TokenKind.inLine]

mutual

theorem Stmt.Derives.inner (h : Stmt.Derives base w stmt) : Token.Inner w := by
  match h with
  | .line h => simp [h.inLine.inner]
  | .headed h hw hb => simp [h.inLine.inner, hb.inner]
  | .condElse he hw hb hw' hb' => simp [he.inLine.inner, hb.inner, hb'.inner]

theorem Block.Derives.inner (h : Block.Derives width w stmts) : Token.Inner w := by
  match h with
  | .one h => exact h.inner
  | .more h hs => simp [h.inner, hs.inner]

end

namespace Block

theorem Program.terminated (h : Program ts program) : Token.Terminated ts := by
  cases h with
  | empty => exact ⟨[], _, rfl, inner_nil⟩
  | block h => exact ⟨_, _, rfl, h.inner⟩

/-- What is left behind a program begins with its end. -/
theorem endOfTokens_ok (h : endOfTokens stmts ts = .ok program rest) :
    ∃ l behind, rest = ⟨.endOfFile, l⟩ :: behind := by
  fun_cases endOfTokens stmts ts
  · cases h
    exact ⟨_, _, rfl⟩
  · rw [endOfTokens] at h
    · cases h
    · assumption

theorem rest_of_program (h : (programOfTokens ts).answer = .ok program rest) :
    ∃ l behind, rest = ⟨.endOfFile, l⟩ :: behind := by
  rw [programOfTokens_answer] at h
  cases ho : (outermostOfTokens ts).answer with
  | error fault rest' => simp [ho] at h
  | ok stmts rest' =>
    rw [ho, Answer.ok_andThen] at h
    exact endOfTokens_ok h

/-- Tokens are read as a program if and only if the grammar derives it from them: which lines belong
to which block, and where each statement is, included. -/
theorem programs_are_read_iff_derived {ts : List Token} (ht : Token.Terminated ts)
    (program : Block) : (programOfTokens ts).toExcept = .ok program ↔ Program ts program := by
  rw [Reply.toExcept_eq_ok_iff]
  refine ⟨?_, fun h => ?_⟩
  · rintro ⟨rest, h⟩
    obtain ⟨w, rfl, hw, -⟩ := (programOfTokens_reads ts).ok program rest h
    obtain ⟨l, behind, rfl⟩ := rest_of_program h
    -- The reader looks at nothing behind the end, where no tokens are.
    obtain rfl := ht.nothing_behind
    exact hw l
  · obtain ⟨l, h⟩ := h.read
    exact ⟨_, h⟩

/-- Two conditions, of which the outer one has an alternative, with four widths of their own. -/
def alternatives : List Token :=
  [⟨.indent 0, ⟨1, 1⟩⟩, ⟨.keyword .ifWord, ⟨1, 1⟩⟩, ⟨.identifier "a", ⟨1, 4⟩⟩, ⟨.lineFeed, ⟨1, 5⟩⟩,
   ⟨.indent 4, ⟨2, 1⟩⟩, ⟨.keyword .ifWord, ⟨2, 5⟩⟩, ⟨.identifier "b", ⟨2, 8⟩⟩, ⟨.lineFeed, ⟨2, 9⟩⟩,
   ⟨.indent 6, ⟨3, 1⟩⟩, ⟨.keyword .returnWord, ⟨3, 7⟩⟩, ⟨.lineFeed, ⟨3, 13⟩⟩,
   ⟨.indent 0, ⟨4, 1⟩⟩, ⟨.keyword .elseWord, ⟨4, 1⟩⟩, ⟨.lineFeed, ⟨4, 5⟩⟩,
   ⟨.indent 2, ⟨5, 1⟩⟩, ⟨.keyword .returnWord, ⟨5, 3⟩⟩, ⟨.lineFeed, ⟨5, 9⟩⟩,
   ⟨.endOfFile, ⟨6, 1⟩⟩]

theorem programs_are_read_iff_derived_in_alternatives :
    Terminated alternatives ∧ (programOfTokens alternatives).toExcept =
      .ok [.cond ⟨1, 1⟩ (.identifier "a")
        [.cond ⟨2, 5⟩ (.identifier "b") [.return ⟨3, 7⟩ none] none]
        (some [.return ⟨5, 3⟩ none])] := by
  have name {x l} : Expr.Derives .assignment [⟨.identifier x, l⟩] (.identifier x) :=
    Expr.Derives.identifier.looser (by decide)
  have hp : Program alternatives _ := .block (.one (.condElse name (by decide : 0 < 4)
    (.one (.headed (.cond name) (by decide : 4 < 6) (.one (.line .return))))
    (by decide : 0 < 2) (.one (.line .return))))
  exact ⟨hp.terminated, (programs_are_read_iff_derived hp.terminated _).2 hp⟩

end Block

end Offside
