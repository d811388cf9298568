import Offside.Proofs.Syntax.BlockReads

/-!
Every program of the grammar is read, as the program that it is. Together with what is known of the
reader, this says exactly which tokens are read and as which program.
-/

namespace Offside

open Token
open Reply (answer_andThen answer_loosen answer_found)

/-- The tokens that stand within expressions. -/
def TokenKind.inExpr : TokenKind → Bool
  | .boolean _ | .number _ | .string _ | .identifier _ => true
  | .operator op => op ≠ .colon
  | .keyword _ | .indent _ | .lineFeed | .endOfFile => false

namespace Expr

theorem operator_inExpr {r : Rank} (h : op ∈ r.continuing) : (TokenKind.operator op).inExpr := by
  revert op
  cases r <;> decide

theorem sign_inExpr (h : (op, o) ∈ signs) : (TokenKind.operator op).inExpr := by
  simp only [signs, List.mem_cons, Prod.mk.injEq, List.not_mem_nil, or_false] at h
  obtain ⟨rfl, -⟩ | ⟨rfl, -⟩ | ⟨rfl, -⟩ := h <;> rfl

mutual

theorem Derives.inExpr (h : Derives r w e) : ∀ t ∈ w, t.kind.inExpr := by
  match h with
  | .tighter hr h => exact h.inExpr
  | .assign ho hl hr =>
    have := operator_inExpr (r := .assignment) (List.mem_map_of_mem (f := Prod.fst) ho)
    have := hl.inExpr
    have := hr.inExpr
    grind
  | .operation ho hl hr =>
    have := operator_inExpr (Rank.mem_continuing ho)
    have := hl.inExpr
    have := hr.inExpr
    grind
  | .sign ho h =>
    have := sign_inExpr ho
    have := h.inExpr
    grind
  | .index hl hi =>
    have := hl.inExpr
    have := hi.inExpr
    grind [TokenKind.inExpr]
  | .boolean => simp [TokenKind.inExpr]
  | .number => simp [TokenKind.inExpr]
  | .string => simp [TokenKind.inExpr]
  | .identifier => simp [TokenKind.inExpr]
  | .call h =>
    have := h.inExpr
    grind [TokenKind.inExpr]
  | .paren h =>
    have := h.inExpr
    grind [TokenKind.inExpr]
  | .list h =>
    have := h.inExpr
    grind [TokenKind.inExpr]

theorem Elements.inExpr (h : Elements w es) : ∀ t ∈ w, t.kind.inExpr := by
  match h with
  | .none => simp
  | .some h => exact h.inExpr

theorem Separated.inExpr (h : Separated w es) : ∀ t ∈ w, t.kind.inExpr := by
  match h with
  | .one h => exact h.inExpr
  | .more h hs =>
    have := h.inExpr
    have := hs.inExpr
    grind [TokenKind.inExpr]

end

end Expr

theorem Param.Derives.opens (h : Derives w p) : ∃ l v, w = ⟨.identifier p.name, l⟩ :: v := by
  cases h
  exact ⟨_, _, rfl⟩

namespace Stmt

/-- Behind an expression that begins a line, no variable is declared. -/
theorem not_colon (h : Expr.Derives .assignment (t :: w) e) (l : Location) (rest : List Token) :
    ∀ l' behind, w ++ ⟨.lineFeed, l⟩ :: rest ≠ ⟨.operator .colon, l'⟩ :: behind := by
  rintro l' behind heq
  cases w with
  | nil => cases heq
  | cons t' w =>
    cases heq
    have := h.inExpr ⟨.operator .colon, l'⟩ (by simp)
    cases this

theorem operand_derived (h : Expr.Derives .assignment w e) (l : Location) (rest : List Token) :
    (operand (w ++ ⟨.lineFeed, l⟩ :: rest)).answer = .ok e rest := by
  rw [operand, lastExpr_derived h]
  obtain ⟨t, v, rfl, ho⟩ := h.opens
  rintro l' rest' ⟨⟩
  cases ho

/-- A parameter with a name of its own is read. -/
theorem paramsAfter_param {taken : List String} {p : Param} (h : Param.Derives w p)
    (hn : p.name ∉ taken) (rest : List Token) :
    (paramsAfter taken (w ++ rest)).answer = (paramsRest (p.name :: taken) p rest).answer := by
  obtain ⟨l, v, rfl⟩ := h.opens
  rw [List.cons_append, paramsAfter_answer, Param.typeOfTokens_derived h rest, Answer.ok_andThen,
    if_neg hn]

theorem paramsAfter_derived {taken : List String} (h : Param.Separated w ps)
    (hn : (ps.map Param.name).Nodup) (hf : ∀ p ∈ ps, p.name ∉ taken) (l : Location)
    (rest : List Token) :
    (paramsAfter taken (w ++ ⟨.operator .closeParen, l⟩ :: rest)).answer = .ok ps rest := by
  induction h generalizing taken with
  | one h =>
    rw [paramsAfter_param h (hf _ (List.mem_singleton.2 rfl)), paramsRest, answer_found]
  | more h hs ih =>
    have hp := hf _ List.mem_cons_self
    obtain ⟨hd, hn⟩ := List.nodup_cons.1 hn
    rw [List.append_assoc, List.cons_append, paramsAfter_param h hp]
    simp only [paramsRest, answer_loosen, answer_andThen, answer_found]
    rw [ih hn, Answer.ok_andThen]
    intro q hq hm
    rcases List.mem_cons.1 hm with he | hm
    · exact hd (he ▸ List.mem_map_of_mem hq)
    · exact hf q (List.mem_cons_of_mem _ hq) hm

theorem params_derived (h : Param.Elements w ps) (l : Location) (rest : List Token) :
    (params (w ++ ⟨.operator .closeParen, l⟩ :: rest)).answer = .ok ps rest := by
  cases h with
  | none => rw [List.nil_append, params, answer_found]
  | some h hn =>
    rw [params, paramsAfter_derived h hn fun _ _ => List.not_mem_nil]
    rintro l' behind heq
    cases h with
    | one h =>
      obtain ⟨l₁, v, rfl⟩ := h.opens
      cases heq
    | more h hs =>
      obtain ⟨l₁, v, rfl⟩ := h.opens
      cases heq

theorem returns_derived (h : Result w ty) (l : Location) (rest : List Token) :
    (returns (w ++ ⟨.lineFeed, l⟩ :: rest)).answer = .ok ty rest := by
  cases h with
  | none =>
    rw [List.nil_append, returns, answer_andThen]
    · rfl
    · rintro l' behind ⟨⟩
  | some h =>
    simp only [List.cons_append, returns, answer_loosen, answer_andThen, answer_found,
      Ty.ofTokens_derived h, Answer.ok_andThen, expectLineEnd]

theorem signature_derived (hp : Param.Elements w ps) (hr : Result w' ty)
    (rest : List Token) :
    (signature (⟨.identifier name, l₂⟩ :: ⟨.operator .openParen, l₃⟩ ::
      (w ++ ⟨.operator .closeParen, l₄⟩ :: (w' ++ ⟨.lineFeed, l₅⟩ :: rest)))).answer =
      .ok (name, ps, ty) rest := by
  simp only [signature, expectName, expect, if_true, answer_loosen, answer_andThen, answer_found,
    Answer.ok_andThen, params_derived hp, returns_derived hr]

theorem loopHeader_derived (h : Expr.Derives .assignment w range) (rest : List Token) :
    (loopHeader (⟨.identifier name, l₂⟩ :: ⟨.operator .colon, l₃⟩ ::
      (w ++ ⟨.lineFeed, l₄⟩ :: rest))).answer = .ok (name, range) rest := by
  simp only [loopHeader, expectName, expect, if_true, answer_loosen, answer_andThen, answer_found,
    Answer.ok_andThen, operand_derived h]

/-- A declaration of a variable with a type. -/
theorem declaration_typed (ht : Ty.Derives w ty)
    (hi : (initializer ts).answer = .ok value rest) :
    (declaration l name (w ++ ts)).answer = .ok (.declare l name (some ty) value) rest := by
  rw [declaration]
  · simp only [answer_loosen, answer_andThen, answer_found, Ty.ofTokens_derived ht,
      Answer.ok_andThen, hi]
  · rintro l' rest' heq
    cases ht <;> cases heq

/-- Every line is read as the statement that it is. -/
theorem ofLine_line (h : Line w stmt) (base : Nat) (rest : List Token) :
    (ofLine base (here w) (w ++ rest)).answer = .ok stmt rest := by
  cases h with
  | declareTyped ht =>
    rw [List.cons_append, List.cons_append, List.append_assoc, List.singleton_append, ofLine, here,
      answer_loosen, answer_loosen]
    refine declaration_typed ht ?_
    rw [initializer, answer_andThen]
    · rfl
    · rintro l' behind ⟨⟩
  | declareBoth ht he =>
    rw [List.cons_append, List.cons_append, List.append_assoc, List.cons_append, List.append_assoc,
      List.singleton_append, ofLine, here, answer_loosen, answer_loosen]
    refine declaration_typed ht ?_
    simp only [initializer, answer_loosen, answer_andThen, answer_found, lastExpr_derived he,
      Answer.ok_andThen]
  | declareInferred he =>
    rw [List.cons_append, List.cons_append, List.cons_append, List.append_assoc,
      List.singleton_append]
    simp only [ofLine, here, declaration, answer_loosen, answer_andThen, answer_found,
      lastExpr_derived he, Answer.ok_andThen]
  | «return» => simp only [List.cons_append, ofLine, here, answer_loosen, answer_found]; rfl
  | returnValue he =>
    rw [List.cons_append, List.append_assoc, List.singleton_append, ofLine, here]
    · simp only [answer_loosen, answer_andThen, answer_found, operand_derived he, Answer.ok_andThen]
    · obtain ⟨t, v, rfl, ho⟩ := he.opens
      rintro l' behind ⟨⟩
      cases ho
  | print he =>
    rw [List.cons_append, List.append_assoc, List.singleton_append]
    simp only [ofLine, here, answer_loosen, answer_andThen, answer_found, operand_derived he,
      Answer.ok_andThen]
  | read he =>
    rw [List.cons_append, List.append_assoc, List.singleton_append]
    simp only [ofLine, here, answer_loosen, answer_andThen, answer_found, operand_derived he,
      Answer.ok_andThen]
  | expr he =>
    obtain ⟨t, v, ⟨⟩, ho⟩ := he.opens
    have hc := not_colon he
    rw [List.cons_append, List.append_assoc, List.singleton_append, here,
      ofLine_of_opens base ho fun l' behind heq => absurd heq (hc _ _ l' behind)]
    exact exprLine_derived he _ rest

/-- Every first line of a statement is read, with the block behind it, as that statement. -/
theorem ofLine_header (h : Header w body stmt) {base : Nat}
    (hb : ∀ what, (Block.nestedOfTokens base what ts).answer = .ok body rest)
    (he : (Block.elseOfTokens base rest).answer = .ok none rest) :
    (ofLine base (here w) (w ++ ts)).answer = .ok stmt rest := by
  cases h with
  | define hp hr =>
    rw [List.cons_append, List.cons_append, List.cons_append, List.append_assoc, List.cons_append,
      List.append_assoc, List.singleton_append, here, ofLine_def, signature_derived hp hr,
      Answer.ok_andThen, hb, Answer.ok_andThen]
  | cond h =>
    rw [List.cons_append, List.append_assoc, List.singleton_append, here, ofLine_if,
      operand_derived h, Answer.ok_andThen, hb, Answer.ok_andThen, he, Answer.ok_andThen]
  | «while» h =>
    rw [List.cons_append, List.append_assoc, List.singleton_append, here, ofLine_while,
      operand_derived h, Answer.ok_andThen, hb, Answer.ok_andThen]
  | «for» h =>
    rw [List.cons_append, List.cons_append, List.cons_append, List.append_assoc,
      List.singleton_append, here, ofLine_for, loopHeader_derived h, Answer.ok_andThen, hb,
      Answer.ok_andThen]

theorem Line.opens (h : Line w stmt) : ∃ t v, w = t :: v ∧ t.kind ≠ .keyword .elseWord := by
  cases h with
  | expr he =>
    obtain ⟨t, v, ⟨⟩, ho⟩ := he.opens
    exact ⟨_, _, rfl, by rintro hk; rw [hk] at ho; cases ho⟩
  | _ => exact ⟨_, _, rfl, nofun⟩

theorem Header.opens (h : Header w body stmt) :
    ∃ t v, w = t :: v ∧ t.kind ≠ .keyword .elseWord := by
  cases h <;> exact ⟨_, _, rfl, nofun⟩

/-- A statement begins with its indentation, and with a word that is none of another statement. -/
theorem Derives.opens (h : Derives base w stmt) :
    ∃ l t v, w = ⟨.indent base, l⟩ :: t :: v ∧ t.kind ≠ .keyword .elseWord := by
  cases h with
  | line h =>
    obtain ⟨t, v, rfl, hk⟩ := h.opens
    exact ⟨_, t, v, rfl, hk⟩
  | headed h hw hb =>
    obtain ⟨t, v, rfl, hk⟩ := h.opens
    exact ⟨_, t, _, rfl, hk⟩
  | condElse => exact ⟨_, _, _, rfl, nofun⟩

end Stmt

namespace Block

theorem Derives.opens (h : Derives width w stmts) :
    ∃ l t v, w = ⟨.indent width, l⟩ :: t :: v ∧ t.kind ≠ .keyword .elseWord := by
  cases h with
  | one h => exact h.opens
  | more h hs =>
    obtain ⟨l, t, v, rfl, hk⟩ := h.opens
    exact ⟨l, t, _, rfl, hk⟩

/-- The next line does not belong to a block of the width. -/
def Closes (width : Nat) (ts : List Token) : Prop :=
  ∀ other l line, ts = ⟨.indent other, l⟩ :: line → other < width

/-- The next line belongs to no block in a statement that is indented by `base`. -/
def Ends (base : Nat) (ts : List Token) : Prop :=
  ∀ other l line, ts = ⟨.indent other, l⟩ :: line →
    other ≤ base ∧ (other = base → ∀ l' behind, line ≠ ⟨.keyword .elseWord, l'⟩ :: behind)

theorem Closes.ends (h : Closes width ts) : Ends width ts := by
  intro other l line ht
  have := h other l line ht
  exact ⟨by omega, by omega⟩

theorem Ends.closes (h : Ends base ts) (hw : base < width) : Closes width ts := by
  intro other l line ht
  have := (h other l line ht).1
  omega

theorem Ends.elseOfTokens (h : Ends base ts) : (elseOfTokens base ts).answer = .ok none ts := by
  refine elseOfTokens_none ?_
  rintro l₁ l₂ behind rfl
  exact (h base l₁ _ rfl).2 rfl l₂ behind rfl

theorem ends_of_derives (h : Derives width w stmts) (rest : List Token) :
    Ends width (w ++ rest) := by
  obtain ⟨l, t, v, rfl, hk⟩ := h.opens
  rintro other l' line ⟨⟩
  refine ⟨Nat.le_refl _, ?_⟩
  rintro - l'' behind ⟨⟩
  exact hk rfl

theorem closes_of_else (hw : base < width) (line : List Token) :
    Closes width (⟨.indent base, l⟩ :: line) := by
  rintro other l' line' ⟨⟩
  exact hw

theorem restOfTokens_of_closes (h : Closes width ts) :
    (restOfTokens width ts).answer = .ok [] ts := by
  fun_cases restOfTokens width ts
  · case case1 other l line hw => exact absurd (h other l line rfl) (by omega)
  · case case2 other l line hw hw' => rw [restOfTokens, if_neg hw, if_pos hw', answer_found]
  · case case3 other l line hw hw' => exact absurd (h other l line rfl) hw'
  · case case4 hne => rw [restOfTokens, answer_found]; exact hne

theorem restOfTokens_lines (h : Derives width w stmts) (rest : List Token) :
    (restOfTokens width (w ++ rest)).answer = linesOfTokens width (w ++ rest) := by
  obtain ⟨l, t, v, rfl, -⟩ := h.opens
  exact restOfTokens_line width l _

theorem outermostOfTokens_lines (h : Derives width w stmts) (rest : List Token) :
    (outermostOfTokens (w ++ rest)).answer = linesOfTokens width (w ++ rest) := by
  obtain ⟨l, t, v, rfl, -⟩ := h.opens
  rw [List.cons_append, outermostOfTokens, answer_loosen, ofTokens]
  simp only [answer_andThen, answer_found, linesOfTokens]

theorem nestedOfTokens_lines (h : Derives width w stmts) (hw : base < width) (what : Expectation)
    (rest : List Token) :
    (nestedOfTokens base what (w ++ rest)).answer = linesOfTokens width (w ++ rest) := by
  obtain ⟨l, t, v, rfl, -⟩ := h.opens
  rw [List.cons_append, nestedOfTokens, if_pos hw, ofTokens]
  simp only [answer_andThen, answer_found, linesOfTokens]

end Block

/-! Each kind of statement, as a step of the reader. -/

theorem Stmt.ofTokens_answer (base : Nat) (l : Location) (line : List Token) :
    (Stmt.ofTokens base (⟨.indent base, l⟩ :: line)).answer =
      (Stmt.ofLine base (here line) line).answer := by
  rw [Stmt.ofTokens, answer_loosen]

theorem Stmt.ofTokens_headed (h : Stmt.Header w body stmt)
    (hb : ∀ what, (Block.nestedOfTokens base what ts).answer = .ok body rest)
    (he : (Block.elseOfTokens base rest).answer = .ok none rest) :
    (Stmt.ofTokens base (⟨.indent base, l⟩ :: (w ++ ts))).answer = .ok stmt rest := by
  have hl := Stmt.ofLine_header h hb he
  obtain ⟨t, v, rfl, -⟩ := h.opens
  rw [Stmt.ofTokens_answer]
  exact hl

theorem Stmt.ofTokens_condElse (he : Expr.Derives .assignment w e)
    (hb : (Block.nestedOfTokens base .ifBlock ts).answer = .ok thenBlock
      (⟨.indent base, l₄⟩ :: ⟨.keyword .elseWord, l₅⟩ :: ⟨.lineFeed, l₆⟩ :: ts'))
    (hb' : (Block.nestedOfTokens base .elseBlock ts').answer = .ok elseBlock rest) :
    (Stmt.ofTokens base (⟨.indent base, l₁⟩ :: ⟨.keyword .ifWord, l₂⟩ ::
      (w ++ ⟨.lineFeed, l₃⟩ :: ts))).answer = .ok (.cond l₂ e thenBlock (some elseBlock)) rest := by
  rw [Stmt.ofTokens_answer, here, Stmt.ofLine_if, Stmt.operand_derived he, Answer.ok_andThen, hb,
    Answer.ok_andThen]
  simp only [Block.elseOfTokens, if_true, expectLineEnd, answer_loosen, answer_andThen,
    answer_found, Answer.ok_andThen, hb']

mutual

theorem Stmt.Derives.read (h : Stmt.Derives base w stmt) (rest : List Token)
    (hr : Block.Ends base rest) : (Stmt.ofTokens base (w ++ rest)).answer = .ok stmt rest := by
  match h with
  | .line h =>
    have hl := Stmt.ofLine_line h base rest
    obtain ⟨t, v, rfl, -⟩ := h.opens
    rw [List.cons_append, Stmt.ofTokens_answer]
    exact hl
  | .headed h hw hb =>
    rw [List.cons_append, List.append_assoc]
    refine Stmt.ofTokens_headed h (fun what => ?_) hr.elseOfTokens
    rw [Block.nestedOfTokens_lines hb hw]
    exact hb.read rest (hr.closes hw)
  | .condElse he hw hb hw' hb' =>
    rw [List.cons_append, List.cons_append, List.append_assoc, List.cons_append,
      List.append_assoc]
    exact Stmt.ofTokens_condElse he
      ((Block.nestedOfTokens_lines hb hw _ _).trans (hb.read _ (Block.closes_of_else hw _)))
      ((Block.nestedOfTokens_lines hb' hw' _ _).trans (hb'.read rest (hr.closes hw')))

theorem Block.Derives.read (h : Block.Derives width w stmts) (rest : List Token)
    (hr : Block.Closes width rest) : Block.linesOfTokens width (w ++ rest) = .ok stmts rest := by
  match h with
  | .one h =>
    rw [Block.linesOfTokens, h.read rest hr.ends, Answer.ok_andThen,
      Block.restOfTokens_of_closes hr, Answer.ok_andThen]
  | .more h hs =>
    rw [List.append_assoc, Block.linesOfTokens, h.read _ (Block.ends_of_derives hs rest),
      Answer.ok_andThen, Block.restOfTokens_lines hs, hs.read rest hr, Answer.ok_andThen]

end

namespace Block

theorem Program.read (h : Program ts program) :
    ∃ l, (programOfTokens ts).answer = .ok program [⟨.endOfFile, l⟩] := by
  cases h with
  | empty =>
    rw [programOfTokens_answer, outermostOfTokens, answer_found, Answer.ok_andThen]
    · exact ⟨_, rfl⟩
    · rintro width l' line ⟨⟩
  | @block width w _ l hb =>
    have hr := hb.read [⟨.endOfFile, l⟩] (by rintro other l' line ⟨⟩)
    rw [programOfTokens_answer, outermostOfTokens_lines hb, hr, Answer.ok_andThen]
    exact ⟨_, rfl⟩

end Block

end Offside
