import Offside.Proofs.Syntax.BlockReads
import Offside.Proofs.Syntax.DescentSteps

/-!
Every rule of the grammar gives the answer of its reader, and descends only to where fewer tokens
are left, or to a rule that binds tighter, if that is so of all rules to which it may descend. So it
is so of every rule, by induction on how many tokens are left and on how tight the rule binds.
-/

namespace Offside

open Token

namespace Goal

/-- The answer of the reader of a rule. What was read before stands in front of it. -/
def answer : (g : Goal) → List Token → Answer g.Result
  | .expr, ts => (Expr.ofTokens ts).answer
  | .level l, ts => (Expr.ofLevel l ts).answer
  | .operations l lhs, ts => (Expr.ofLevelRest l lhs ts).answer
  | .indexed, ts => (Expr.ofIndexed ts).answer
  | .indices lhs, ts => (Expr.ofIndices lhs ts).answer
  | .operand, ts => (Expr.ofOperand ts).answer
  | .elements close what before, ts =>
    (Expr.nonemptyOfTokens close what ts).answer.map (before ++ ·)
  | .type, ts => (Ty.ofTokens ts).answer
  | .params before, ts =>
    (Stmt.paramsAfter (before.map Param.name).reverse ts).answer.map (before ++ ·)
  | .block, ts => (Block.ofTokens ts).answer
  | .instructions base before, ts => (Block.restOfTokens base ts).answer.map (before ++ ·)
  | .program, ts => (Block.programOfTokens ts).answer

theorem answer_elements (close : Operator) (what : Expectation) (before : List Expr)
    (ts : List Token) : (elements close what before).answer ts =
      (Expr.nonemptyOfTokens close what ts).answer.map (before ++ ·) :=
  rfl

theorem answer_params (before : List Param) (ts : List Token) : (params before).answer ts =
    (Stmt.paramsAfter (before.map Param.name).reverse ts).answer.map (before ++ ·) :=
  rfl

theorem answer_instructions (base : Nat) (before : Block) (ts : List Token) :
    (instructions base before).answer ts =
      (Block.restOfTokens base ts).answer.map (before ++ ·) :=
  rfl

end Goal

namespace Parse

variable {β γ : Type} {n k : Nat} {t : Token} {ts : List Token}

/-- The rules that may be descended to give the answers of the readers. -/
def Settled (n k : Nat) : Prop :=
  ∀ g ts, Nearer n k g ts → Terminated ts → g.body.Gives ts.length g.rank ts (g.answer ts)

theorem Settled.descend (h : Settled n k) {g : Goal} (hn : Nearer n k g ts) (hts : Terminated ts) :
    (Parse.descend g).Gives n k ts (g.answer ts) := by
  have hg := h g ts hn hts
  refine ⟨hg.suffix, hg.terminated, fun p hp => ?_, fun p g' p' hp hd => ?_⟩
  · obtain ⟨m, hm⟩ := hg.returns p hp
    generalize g.answer ts = r at hm
    cases r with
    | ok a rest => exact ⟨_, .descend hm .done⟩
    | error fault rest => exact ⟨_, .descendFault hm⟩
  · cases hd with
    | here => exact ⟨rfl, ts, hp, hn⟩
    | later hr hd => cases hd

theorem Settled.later (h : Settled n k) {g : Goal} (hn : ts.length < n) (hts : Terminated ts) :
    (Parse.descend g).Gives n k ts (g.answer ts) :=
  h.descend (.inl hn) hts

/-- Either the next token means something in the table, or it does not. -/
theorem lookup_cases (table : Operator → Option γ) (hts : Terminated ts) :
    (∃ op l rest found, ts = ⟨.operator op, l⟩ :: rest ∧ table op = some found) ∨
      ∃ t rest, ts = t :: rest ∧ t.kind.lookup? table = none := by
  obtain ⟨⟨kind, l⟩, rest, rfl⟩ := hts.exists_cons
  cases hfound : kind.lookup? table with
  | none => exact .inr ⟨_, _, rfl, hfound⟩
  | some found =>
    cases kind with
    | operator op => exact .inl ⟨op, l, rest, found, rfl, hfound⟩
    | _ => cases hfound

open Reply

theorem ofAssigned_none {lhs : Expr} (h : t.kind.lookup? Expr.assignment? = none) :
    (Expr.ofAssigned lhs (t :: ts)).answer = .ok lhs (t :: ts) := by
  obtain ⟨kind, l⟩ := t
  cases kind with
  | operator op =>
    have hop : Expr.assignment? op = none := h
    simp only [Expr.ofAssigned, hop, answer_found]
  | _ => simp only [Expr.ofAssigned, answer_found]

theorem ofLevelRest_none {l : Expr.Level} {lhs : Expr} (h : t.kind.lookup? l.operation? = none) :
    (Expr.ofLevelRest l lhs (t :: ts)).answer = .ok lhs (t :: ts) := by
  obtain ⟨kind, loc⟩ := t
  cases kind with
  | operator op =>
    have hop : l.operation? op = none := h
    simp only [Expr.ofLevelRest, hop, answer_found]
  | _ => simp only [Expr.ofLevelRest, answer_found]

theorem ofUnary_none (h : t.kind.lookup? Expr.unaryOp? = none) :
    (Expr.ofUnary (t :: ts)).answer = (Expr.ofIndexed (t :: ts)).answer := by
  obtain ⟨kind, l⟩ := t
  cases kind with
  | operator op =>
    have hop : Expr.unaryOp? op = none := h
    simp only [Expr.ofUnary, hop]
  | _ => simp only [Expr.ofUnary]

section Expressions

theorem assignment_gives (h : Settled ts.length 8) (hts : Terminated ts) :
    assignment.Gives ts.length 8 ts (Expr.ofTokens ts).answer := by
  rw [Expr.ofTokens, answer_andThen]
  refine .bind (h.descend (.inr ⟨rfl, by decide⟩) hts) fun lhs rest hr _ hrest => ?_
  have hlt := shorter hr
  obtain ⟨op, l, right, base, rfl, hop⟩ | ⟨t, right, rfl, hnone⟩ :=
    lookup_cases Expr.assignment? hrest
  · simp only [Expr.ofAssigned, hop, answer_loosen, answer_andThen, answer_found]
    have hright := hrest.tail rfl
    exact .lookup hop (.next rfl (.map (h.later (Nat.lt_of_succ_lt hlt) hright)))
  · rw [ofAssigned_none hnone]
    exact .lookup hnone (.pure _ hrest)

theorem unary_gives (h : Settled ts.length 2) (hts : Terminated ts) :
    unary.Gives ts.length 2 ts (Expr.ofUnary ts).answer := by
  obtain ⟨op, l, right, o, rfl, hop⟩ | ⟨t, right, rfl, hnone⟩ := lookup_cases Expr.unaryOp? hts
  · have hright := hts.tail rfl
    have hd : (Parse.descend (.level .unary)).Gives _ 2 right (Expr.ofLevel .unary right).answer :=
      h.later (Nat.lt_succ_self _) hright
    rw [Expr.ofLevel_unary] at hd
    simp only [Expr.ofUnary, hop, answer_loosen, answer_andThen, answer_found]
    exact .lookup hop (.next rfl (.map hd))
  · rw [ofUnary_none hnone]
    exact .lookup hnone (h.descend (.inr ⟨rfl, by decide⟩) hts)

theorem level_gives (l : Expr.Level) (h : Settled ts.length (l.rank + 2)) (hts : Terminated ts) :
    (level l).Gives ts.length (l.rank + 2) ts (Expr.ofLevel l ts).answer := by
  unfold level
  by_cases hl : l = .unary
  · subst hl
    rw [if_pos rfl, Expr.ofLevel_unary]
    exact unary_gives h hts
  · have hrank := Expr.Level.rank_tighter_lt hl
    rw [if_neg hl, Expr.ofLevel_answer hl]
    refine .bind (h.descend (.inr ⟨rfl, ?_⟩) hts) fun lhs rest hr _ hrest => ?_
    · change l.tighter.rank + 2 < l.rank + 2
      omega
    · exact h.later (shorter hr) hrest

theorem operations_gives (l : Expr.Level) (lhs : Expr) (h : Settled ts.length 0)
    (hts : Terminated ts) :
    (operations l lhs).Gives ts.length 0 ts (Expr.ofLevelRest l lhs ts).answer := by
  obtain ⟨op, loc, right, o, rfl, hop⟩ | ⟨t, right, rfl, hnone⟩ := lookup_cases l.operation? hts
  · have hright := hts.tail rfl
    simp only [Expr.ofLevelRest, hop, answer_loosen, answer_andThen]
    refine .lookup hop (.next rfl (.bind (h.later (Nat.lt_succ_self _) hright) ?_))
    exact fun rhs rest hr _ hrest => h.later (Nat.lt_succ_of_lt (shorter hr)) hrest
  · rw [ofLevelRest_none hnone]
    exact .lookup hnone (.pure _ hts)

theorem indexed_gives (h : Settled ts.length 1) (hts : Terminated ts) :
    indexed.Gives ts.length 1 ts (Expr.ofIndexed ts).answer := by
  rw [Expr.ofIndexed, answer_andThen]
  refine .bind (h.descend (.inr ⟨rfl, by decide⟩) hts) fun lhs rest hr _ hrest => ?_
  exact h.later (shorter hr) hrest

theorem indices_gives (lhs : Expr) (h : Settled ts.length 0) (hts : Terminated ts) :
    (indices lhs).Gives ts.length 0 ts (Expr.ofIndices lhs ts).answer := by
  fun_cases Expr.ofIndices lhs ts
  · case case1 l inside =>
    simp only [Expr.ofIndices, answer_loosen, answer_andThen]
    have hinside := hts.tail rfl
    refine .eat (.bind (h.later (Nat.lt_succ_self _) hinside) fun index rest hr _ hrest => ?_)
    refine .bind (.expect _ _ hrest) fun _ rest' hr' _ hrest' => ?_
    exact h.later (Nat.lt_succ_of_lt (Nat.lt_trans (shorter hr') (shorter hr))) hrest'
  · case case2 hne =>
    rw [Expr.ofIndices, answer_found]
    · exact .notEat_of_ne hts hne (.pure _ hts)
    · exact hne

theorem list_gives (close : Operator) (what : Expectation) (h : Settled n k)
    (hn : ts.length < n) (hts : Terminated ts) :
    (list close what).Gives n k ts (Expr.listOfTokens close what ts).answer := by
  have helements := h.later (g := .elements close what []) hn hts
  rw [Goal.answer_elements, Answer.map_nil_append] at helements
  fun_cases Expr.listOfTokens close what ts
  · case case1 l rest =>
    rw [Expr.listOfTokens, if_pos rfl, answer_found]
    exact .eat (.pure _ (hts.tail rfl))
  · case case2 op l rest hop =>
    rw [Expr.listOfTokens, if_neg hop]
    exact .notEat (by simpa using hop) helements
  · case case3 hne =>
    rw [Expr.listOfTokens]
    · exact .notEat_of_ne hts (hne close) helements
    · exact hne

theorem elements_gives (close : Operator) (what : Expectation) (before : List Expr)
    (h : Settled ts.length 9) (hts : Terminated ts) :
    (elements close what before).Gives ts.length 9 ts
      (Goal.answer (.elements close what before) ts) := by
  rw [Goal.answer_elements, Expr.nonemptyOfTokens, answer_andThen, Answer.map_andThen]
  simp only [answer_loosen]
  refine .bind (h.descend (.inr ⟨rfl, by decide⟩) hts) fun e rest hr hs hrest => ?_
  have hlt := shorter hr
  clear hr hs
  fun_cases Expr.listRestOfTokens close what e rest
  · case case1 l rest =>
    rw [Expr.listRestOfTokens, if_pos rfl, answer_found]
    exact .eat (.pure _ (hrest.tail rfl))
  · case case2 l rest hop =>
    simp only [Expr.listRestOfTokens, if_neg hop, if_true, answer_loosen, answer_andThen,
      answer_found, Answer.map_andThen, Answer.map_ok]
    have hmore := h.later (g := .elements close what (before ++ [e])) (Nat.lt_of_succ_lt hlt)
      (hrest.tail rfl)
    rw [Goal.answer_elements, Answer.map_append] at hmore
    exact .notEat (by simpa using hop) (.eat hmore)
  · case case3 op l rest hop hcomma =>
    simp only [Expr.listRestOfTokens, if_neg hop, if_neg hcomma, answer_missing, Answer.map_error]
    exact .notEat (by simpa using hop) (.notEat (by simpa using hcomma) (.missing what hrest))
  · case case4 hne =>
    rw [Expr.listRestOfTokens, answer_missing, Answer.map_error]
    · refine .notEat_of_ne hrest (hne close) ?_
      exact .notEat_of_ne hrest (hne .comma) (.missing what hrest)
    · exact hne

theorem operand_gives (h : Settled ts.length 0) (hts : Terminated ts) :
    operand.Gives ts.length 0 ts (Expr.ofOperand ts).answer := by
  fun_cases Expr.ofOperand ts
  · rw [Expr.ofOperand, answer_found]
    exact .peek (.next rfl (.pure _ (hts.tail rfl)))
  · rw [Expr.ofOperand, answer_found]
    exact .peek (.next rfl (.pure _ (hts.tail rfl)))
  · rw [Expr.ofOperand, answer_found]
    exact .peek (.next rfl (.pure _ (hts.tail rfl)))
  · case case4 name l l' inside =>
    simp only [Expr.ofOperand, answer_loosen, answer_andThen, answer_found]
    have hinside := (hts.tail rfl).tail rfl
    have hlt := Nat.lt_succ_of_lt (Nat.lt_succ_self inside.length)
    exact .peek (.next rfl (.eat (.map (list_gives _ _ h hlt hinside))))
  · case case5 name l rest hne =>
    have hrest := hts.tail rfl
    rw [Expr.ofOperand, answer_found]
    · exact .peek (.next rfl (.notEat_of_ne hrest hne (.pure _ hrest)))
    · exact hne
  · case case6 l inside =>
    simp only [Expr.ofOperand, answer_loosen, answer_andThen, answer_found]
    have hinside := hts.tail rfl
    refine .peek (.next rfl (.bind (h.later (Nat.lt_succ_self _) hinside) ?_))
    exact fun e rest _ _ hrest => .map (.expect _ _ hrest)
  · case case7 l inside =>
    simp only [Expr.ofOperand, answer_loosen, answer_andThen, answer_found]
    have hinside := hts.tail rfl
    exact .peek (.next rfl (.map (list_gives _ _ h (Nat.lt_succ_self _) hinside)))
  · case case8 hboolean hnumber hstring hcall hname hparen hsquare =>
    obtain ⟨⟨kind, l⟩, rest, rfl⟩ := hts.exists_cons
    rw [Expr.ofOperand, answer_missing]
    · refine .peek ?_
      cases kind with
      | boolean b => exact (hboolean b l rest rfl).elim
      | number x => exact (hnumber x l rest rfl).elim
      | string s => exact (hstring s l rest rfl).elim
      | identifier name => exact (hname name l rest rfl).elim
      | operator op =>
        cases op with
        | openParen => exact (hparen l rest rfl).elim
        | openSquare => exact (hsquare l rest rfl).elim
        | _ => exact .missing .operand hts
      | _ => exact .missing .operand hts
    all_goals assumption

end Expressions

section Lines

theorem type_gives (h : Settled ts.length 0) (hts : Terminated ts) :
    type.Gives ts.length 0 ts (Ty.ofTokens ts).answer := by
  fun_cases Ty.ofTokens ts
  · rw [Ty.ofTokens, answer_found]
    exact .peek (.next rfl (.pure _ (hts.tail rfl)))
  · rw [Ty.ofTokens, answer_found]
    exact .peek (.next rfl (.pure _ (hts.tail rfl)))
  · rw [Ty.ofTokens, answer_found]
    exact .peek (.next rfl (.pure _ (hts.tail rfl)))
  · case case4 l rest =>
    simp only [Ty.ofTokens, answer_loosen, answer_andThen, answer_found]
    have hrest := hts.tail rfl
    refine .peek (.next rfl (.bind (.expect _ _ hrest) fun _ inside hr _ hinside => ?_))
    have hlt := Nat.lt_succ_of_lt (shorter hr)
    exact .bind (h.later hlt hinside) fun element behind _ _ hbehind => .map (.expect _ _ hbehind)
  · case case5 hboolean hnumber hstring harray =>
    obtain ⟨⟨kind, l⟩, rest, rfl⟩ := hts.exists_cons
    rw [Ty.ofTokens, answer_missing]
    · refine .peek ?_
      cases kind with
      | keyword word =>
        cases word with
        | booleanWord => exact (hboolean l rest rfl).elim
        | numberWord => exact (hnumber l rest rfl).elim
        | stringWord => exact (hstring l rest rfl).elim
        | arrayWord => exact (harray l rest rfl).elim
        | _ => exact .missing .typeName hts
      | _ => exact .missing .typeName hts
    all_goals assumption

variable (h : Settled n k) (hn : ts.length < n) (hts : Terminated ts)
include h hn hts

theorem lastExpr_gives : lastExpr.Gives n k ts (Stmt.lastExpr ts).answer := by
  simp only [Stmt.lastExpr, answer_loosen, answer_andThen, answer_found]
  exact .bind (h.later hn hts) fun e rest _ _ hrest => .map (.expectLineEnd _ hrest)

theorem operandExpr_gives : operandExpr.Gives n k ts (Stmt.operand ts).answer := by
  obtain ⟨⟨kind, l⟩, rest, rfl⟩ := hts.exists_cons
  refine .peek ?_
  cases kind with
  | lineFeed => exact .missing .expression hts
  | _ => exact lastExpr_gives h hn hts

theorem declaredType_gives (ht : ∀ l rest, ts ≠ ⟨.operator .equals, l⟩ :: rest) :
    declaredType.Gives n k ts
      ((Ty.ofTokens ts).answer.andThen fun ty rest => .ok (some ty) rest) := by
  obtain ⟨⟨kind, l⟩, rest, rfl⟩ := hts.exists_cons
  refine .peek ?_
  rw [if_neg (fun hk => ht l rest (by cases hk; rfl))]
  exact .map (h.later hn hts)

/-- An initial value, and the end of the line. -/
theorem initialized_gives (y : Option Expr → Stmt) :
    (initializer >>= fun value => Parse.expectLineEnd .operatorOrLineEnd >>= fun _ =>
      Pure.pure (y value)).Gives n k ts
      ((Stmt.initializer ts).answer.andThen fun value rest => .ok (y value) rest) := by
  have hall : ∀ r, initializer.Gives n k ts r →
      (initializer >>= fun value => Parse.expectLineEnd .operatorOrLineEnd >>= fun _ =>
        Pure.pure (y value)).Gives n k ts
        (r.andThen fun value rest => (Token.expectLineEnd .operatorOrLineEnd rest).answer.andThen
          fun _ rest => .ok (y value) rest) :=
    fun r hr => hr.bind fun value rest _ _ hrest => .map (.expectLineEnd _ hrest)
  fun_cases Stmt.initializer ts
  · case case1 l rest =>
    have hexpr : (Parse.descend .expr).Gives n k rest (Expr.ofTokens rest).answer :=
      h.later (Nat.lt_of_succ_lt hn) (hts.tail rfl)
    simpa only [Stmt.initializer, Stmt.lastExpr, answer_loosen, answer_andThen, answer_found,
      Answer.andThen_assoc, Answer.ok_andThen] using hall _ (.eat (.map hexpr))
  · case case2 hne =>
    rw [Stmt.initializer]
    · simpa only [answer_andThen, answer_found, Answer.andThen_assoc, Answer.ok_andThen] using
        hall _ (.notEat_of_ne hts hne (.pure _ hts))
    · exact hne

theorem declaration_gives (loc : Location) (name : String) :
    (declaration loc name).Gives n k ts (Stmt.declaration loc name ts).answer := by
  have hall : ∀ r, declaredType.Gives n k ts r → (declaration loc name).Gives n k ts
      (r.andThen fun ty rest => (Stmt.initializer rest).answer.andThen fun value rest =>
        .ok (.declare loc name ty value) rest) :=
    fun r hr => hr.bind fun ty rest _ hs hrest =>
      initialized_gives h (hs.length_le.trans_lt hn) hrest (.declare loc name ty)
  fun_cases Stmt.declaration loc name ts
  · case case1 l rest =>
    simpa only [Stmt.declaration, Stmt.initializer, answer_loosen, answer_andThen, answer_found,
      Answer.andThen_assoc, Answer.ok_andThen] using hall (.ok none _) (.peek (.pure _ hts))
  · case case2 hne =>
    rw [Stmt.declaration]
    · simpa only [answer_loosen, answer_andThen, answer_found, Answer.andThen_assoc,
        Answer.ok_andThen] using hall _ (declaredType_gives h hn hts hne)
    · exact hne

theorem parameters_gives : parameters.Gives n k ts (Stmt.params ts).answer := by
  have hparams := h.later (g := .params []) hn hts
  rw [Goal.answer_params, Answer.map_nil_append] at hparams
  fun_cases Stmt.params ts
  · exact .eat (.pure _ (hts.tail rfl))
  · case case2 hne =>
    rw [Stmt.params]
    · exact .notEat_of_ne hts hne hparams
    · exact hne

/-- The type of a result, and the end of the line. -/
theorem result_gives (y : Ty → String × List Param × Ty) :
    (resultType >>= fun ty => Parse.expectLineEnd .lineEnd >>= fun _ => Pure.pure (y ty)).Gives n k
      ts ((Stmt.returns ts).answer.andThen fun ty rest => .ok (y ty) rest) := by
  have hall : ∀ r, resultType.Gives n k ts r →
      (resultType >>= fun ty =>
        Parse.expectLineEnd .lineEnd >>= fun _ => Pure.pure (y ty)).Gives n k ts
        (r.andThen fun ty rest => (Token.expectLineEnd .lineEnd rest).answer.andThen
          fun _ rest => .ok (y ty) rest) :=
    fun r hr => hr.bind fun ty rest _ _ hrest => .map (.expectLineEnd _ hrest)
  fun_cases Stmt.returns ts
  · case case1 l rest =>
    have hty : (Parse.descend .type).Gives n k rest (Ty.ofTokens rest).answer :=
      h.later (Nat.lt_of_succ_lt hn) (hts.tail rfl)
    simpa only [Stmt.returns, answer_loosen, answer_andThen, answer_found, Answer.andThen_assoc,
      Answer.ok_andThen] using hall _ (.eat hty)
  · case case2 hne =>
    rw [Stmt.returns]
    · simpa only [answer_andThen, answer_found, Answer.andThen_assoc, Answer.ok_andThen] using
        hall _ (.notEat_of_ne hts hne (.pure _ hts))
    · exact hne

theorem signature_gives : signature.Gives n k ts (Stmt.signature ts).answer := by
  simp only [Stmt.signature, answer_loosen, answer_andThen, answer_found]
  refine .bind (.expectName _ hts) fun name rest₁ _ hs₁ hrest₁ => ?_
  have hn₁ := hs₁.length_le.trans_lt hn
  refine .bind (.expect _ _ hrest₁) fun _ rest₂ _ hs₂ hrest₂ => ?_
  have hn₂ := hs₂.length_le.trans_lt hn₁
  refine .bind (parameters_gives h hn₂ hrest₂) fun params rest₃ _ hs₃ hrest₃ => ?_
  exact result_gives h (hs₃.length_le.trans_lt hn₂) hrest₃ fun ty => (name, params, ty)

theorem loopHeader_gives : loopHeader.Gives n k ts (Stmt.loopHeader ts).answer := by
  simp only [Stmt.loopHeader, answer_loosen, answer_andThen, answer_found]
  refine .bind (.expectName _ hts) fun name rest hr _ hrest => ?_
  refine .bind (.expect _ _ hrest) fun _ inside hr' _ hinside => ?_
  have hlt := Nat.lt_trans (shorter hr') (shorter hr)
  exact .map (operandExpr_gives h (Nat.lt_trans hlt hn) hinside)

end Lines

theorem params_gives (before : List Param) (h : Settled ts.length 0) (hts : Terminated ts) :
    (params before).Gives ts.length 0 ts (Goal.answer (.params before) ts) := by
  rw [Goal.answer_params, Stmt.paramsAfter]
  simp only [answer_loosen, answer_andThen, Answer.map_andThen]
  refine .location ?_ hts
  refine .bind (.expectName _ hts) fun name rest₁ hr₁ _ hrest₁ => ?_
  have hn₁ := shorter hr₁
  refine .bind (.expect _ _ hrest₁) fun _ rest₂ _ hs₂ hrest₂ => ?_
  have hn₂ := hs₂.length_le.trans_lt hn₁
  refine .bind (h.later hn₂ hrest₂) fun ty rest₃ _ hs₃ hrest₃ => ?_
  have hn₃ := hs₃.length_le.trans_lt hn₂
  have hmem : name ∈ (before.map Param.name).reverse ↔ name ∈ before.map Param.name :=
    List.mem_reverse
  by_cases hname : name ∈ before.map Param.name
  · rw [if_pos hname, if_pos (hmem.2 hname)]
    exact .fail _ hrest₃
  · rw [if_neg hname, if_neg (mt hmem.1 hname), answer_loosen]
    generalize htaken : name :: (before.map Param.name).reverse = taken
    fun_cases Stmt.paramsRest taken ⟨name, ty⟩ rest₃
    · rw [Stmt.paramsRest, answer_found]
      exact .eat (.pure _ (hrest₃.tail rfl))
    · case case2 l rest =>
      have hmore := h.later (g := .params (before ++ [⟨name, ty⟩])) (Nat.lt_of_succ_lt hn₃)
        (hrest₃.tail rfl)
      rw [Goal.answer_params, Answer.map_append, List.map_append, List.reverse_append] at hmore
      simp only [Stmt.paramsRest, answer_loosen, answer_andThen, answer_found, Answer.map_andThen,
        Answer.map_ok, ← htaken]
      exact .notEat (by simp) (.eat hmore)
    · case case3 hclose hcomma =>
      rw [Stmt.paramsRest, answer_missing, Answer.map_error]
      · refine .notEat_of_ne hrest₃ hclose ?_
        exact .notEat_of_ne hrest₃ hcomma (.missing _ hrest₃)
      all_goals assumption

section Blocks

variable (base : Nat) (h : Settled n k) (hn : ts.length < n)
include h hn

theorem nested_gives (hts : Terminated ts) (what : Expectation) :
    (nested base what).Gives n k ts (Block.nestedOfTokens base what ts).answer := by
  have hblock : (Parse.descend .block).Gives n k ts (Block.ofTokens ts).answer :=
    h.later hn hts
  fun_cases Block.nestedOfTokens base what ts
  · case case1 width l line hw =>
    rw [Block.nestedOfTokens, if_pos hw]
    exact .peek (by simpa only [if_pos hw] using hblock)
  · case case2 width l line hw =>
    rw [Block.nestedOfTokens, if_neg hw, answer_missing]
    exact .peek (by simpa only [if_neg hw] using .missing what hts)
  · case case3 hne =>
    obtain ⟨⟨kind, l⟩, rest, rfl⟩ := hts.exists_cons
    rw [Block.nestedOfTokens, answer_missing]
    · refine .peek ?_
      cases kind with
      | indent width => exact (hne width l rest rfl).elim
      | _ => exact .missing what hts
    · exact hne

/-- The first line of a statement, and the block under it. -/
theorem headed_gives {header : Parse β} {r : Answer β} (hheader : header.Gives n k ts r)
    (what : Expectation) (make : β → Block → Stmt) :
    (header >>= fun b => nested base what >>= fun body => Pure.pure (make b body)).Gives n k ts
      (r.andThen fun b rest => (Block.nestedOfTokens base what rest).answer.andThen
        fun body rest => .ok (make b body) rest) :=
  hheader.bind fun _ _ _ hs hrest =>
    .map (nested_gives base h (hs.length_le.trans_lt hn) hrest what)

variable (hts : Terminated ts)
include hts

theorem elseBlock_gives : (elseBlock base).Gives n k ts (Block.elseOfTokens base ts).answer := by
  fun_cases Block.elseOfTokens base ts
  · case case1 l l' behind =>
    have hbehind := (hts.tail rfl).tail rfl
    refine .peek (.peekNext rfl ?_)
    simp only [if_true, Block.elseOfTokens, answer_loosen, answer_andThen, answer_found]
    refine .next rfl (.next rfl (.bind (.expectLineEnd _ hbehind) fun _ rest _ hs hrest => ?_))
    have hn' : rest.length < n := by
      have := hs.length_le
      simp only [List.length_cons] at hn
      omega
    exact .map (nested_gives base h hn' hrest _)
  · case case2 width l l' behind hw =>
    refine .peek (.peekNext rfl ?_)
    simp only [if_neg hw, Block.elseOfTokens, answer_found]
    exact .pure _ hts
  · case case3 hne =>
    obtain ⟨⟨kind, l⟩, rest, rfl⟩ := hts.exists_cons
    rw [Block.elseOfTokens, answer_found]
    · refine .peek ?_
      cases kind with
      | indent width =>
        obtain ⟨⟨kind', l'⟩, behind, rfl⟩ := (hts.tail rfl).exists_cons
        refine .peekNext rfl ?_
        cases kind' with
        | keyword word =>
          cases word with
          | elseWord => exact (hne width l l' behind rfl).elim
          | _ => exact .pure _ hts
        | _ => exact .pure _ hts
      | _ => exact .peekAny fun kind' => .pure _ hts
    · exact hne

/-- A line is an expression unless it declares a variable or its first word says otherwise. -/
theorem line_gives_expr (loc : Location)
    (hname : ∀ name l l' behind,
      ts ≠ ⟨.identifier name, l⟩ :: ⟨.operator .colon, l'⟩ :: behind)
    (hword : ∀ word ∈ [Keyword.defWord, .ifWord, .elseWord, .whileWord, .forWord, .returnWord,
      .printWord, .readWord], ∀ l rest, ts ≠ ⟨.keyword word, l⟩ :: rest) :
    (line base loc).Gives n k ts
      ((Stmt.lastExpr ts).answer.andThen fun e rest => .ok (.expr loc e) rest) := by
  have hexpr : (lastExpr >>= fun e => Pure.pure (.expr loc e) : Parse Stmt).Gives n k ts
      ((Stmt.lastExpr ts).answer.andThen fun e rest => .ok (.expr loc e) rest) :=
    .map (lastExpr_gives h hn hts)
  obtain ⟨⟨kind, l⟩, rest, rfl⟩ := hts.exists_cons
  refine .peek ?_
  cases kind with
  | identifier name =>
    obtain ⟨⟨kind', l'⟩, behind, rfl⟩ := (hts.tail rfl).exists_cons
    refine .peekNext rfl ?_
    cases kind' with
    | operator op =>
      cases op with
      | colon => exact (hname name l l' behind rfl).elim
      | _ => exact hexpr
    | _ => exact hexpr
  | keyword word =>
    refine .peekAny fun _ => ?_
    cases word with
    | defWord | ifWord | elseWord | whileWord | forWord | returnWord | printWord | readWord =>
      exact (hword _ (by decide) l rest rfl).elim
    | _ => exact hexpr
  | _ => exact .peekAny fun _ => hexpr

theorem line_gives (loc : Location) :
    (line base loc).Gives n k ts (Stmt.ofLine base loc ts).answer := by
  fun_cases Stmt.ofLine base loc ts
  · case case1 name l l' rest =>
    simp only [Stmt.ofLine, answer_loosen]
    refine .peek (.peekNext rfl (.next rfl (.next rfl ?_)))
    have hn' := Nat.lt_of_succ_lt (Nat.lt_of_succ_lt hn)
    exact declaration_gives h hn' ((hts.tail rfl).tail rfl) loc name
  · case case2 l rest =>
    rw [Stmt.ofLine_def]
    have hn' := Nat.lt_of_succ_lt hn
    have hrest := hts.tail rfl
    refine .peek (.peekAny fun _ => .next rfl ?_)
    exact headed_gives base h hn' (signature_gives h hn' hrest) _
      fun s body => .define loc s.1 s.2.1 s.2.2 body
  · case case3 l rest =>
    rw [Stmt.ofLine_if]
    refine .peek (.peekAny fun _ => .next rfl ?_)
    have hn' := Nat.lt_of_succ_lt hn
    refine .bind (operandExpr_gives h hn' (hts.tail rfl)) fun e rest₁ _ hs₁ hrest₁ => ?_
    have hn₁ := hs₁.length_le.trans_lt hn'
    refine .bind (nested_gives base h hn₁ hrest₁ _) fun stmts rest₂ _ hs₂ hrest₂ => ?_
    exact .map (elseBlock_gives base h (hs₂.length_le.trans_lt hn₁) hrest₂)
  · case case4 l rest =>
    rw [Stmt.ofLine, answer_stop]
    exact .peek (.peekAny fun _ => .stop _ hts)
  · case case5 l rest =>
    rw [Stmt.ofLine_while]
    have hn' := Nat.lt_of_succ_lt hn
    have hrest := hts.tail rfl
    refine .peek (.peekAny fun _ => .next rfl ?_)
    exact headed_gives base h hn' (operandExpr_gives h hn' hrest) _ (.while loc)
  · case case6 l rest =>
    rw [Stmt.ofLine_for]
    have hn' := Nat.lt_of_succ_lt hn
    have hrest := hts.tail rfl
    refine .peek (.peekAny fun _ => .next rfl ?_)
    exact headed_gives base h hn' (loopHeader_gives h hn' hrest) _
      fun s body => .for loc s.1 s.2 body
  · case case7 l l' rest =>
    simp only [Stmt.ofLine, answer_loosen, answer_found]
    refine .peek (.peekAny fun _ => .next rfl (.peek (.next rfl ?_)))
    exact .pure _ ((hts.tail rfl).tail rfl)
  · case case8 l rest hne =>
    have hrest := hts.tail rfl
    obtain ⟨⟨kind, l'⟩, behind, rfl⟩ := hrest.exists_cons
    rw [Stmt.ofLine]
    · simp only [answer_loosen, answer_andThen, answer_found]
      refine .peek (.peekAny fun _ => .next rfl (.peek ?_))
      rw [if_neg (fun hk => hne l' behind (by cases hk; rfl))]
      exact .map (operandExpr_gives h (Nat.lt_of_succ_lt hn) hrest)
    · exact hne
  · case case9 l rest =>
    simp only [Stmt.ofLine, answer_loosen, answer_andThen, answer_found]
    refine .peek (.peekAny fun _ => .next rfl ?_)
    exact .map (operandExpr_gives h (Nat.lt_of_succ_lt hn) (hts.tail rfl))
  · case case10 l rest =>
    simp only [Stmt.ofLine, answer_loosen, answer_andThen, answer_found]
    refine .peek (.peekAny fun _ => .next rfl ?_)
    exact .map (operandExpr_gives h (Nat.lt_of_succ_lt hn) (hts.tail rfl))
  · case case11 hname hdef hif helse hwhile hfor hreturn hreturnValue hprint hread =>
    rw [Stmt.ofLine]
    · simp only [answer_andThen, answer_found]
      refine line_gives_expr base h hn hts loc hname ?_
      simp only [List.forall_mem_cons, List.not_mem_nil, false_implies, implies_true, and_true]
      exact ⟨hdef, hif, helse, hwhile, hfor, hreturnValue, hprint, hread⟩
    all_goals assumption

end Blocks

theorem instruction_gives (base : Nat) (h : Settled n k) (hn : ts.length < n)
    (ht : t.kind.isEnd = false) (hts : Terminated (t :: ts)) :
    (instruction base).Gives n k (t :: ts) (Stmt.ofTokens base (t :: ts)).answer := by
  have hrest := hts.tail ht
  rw [Stmt.ofTokens, answer_loosen]
  exact .next ht (.location (line_gives base h hn hrest _) hrest)

theorem instructions_gives (base : Nat) (before : Block) (h : Settled ts.length 0)
    (hts : Terminated ts) :
    (instructions base before).Gives ts.length 0 ts
      (Goal.answer (.instructions base before) ts) := by
  rw [Goal.answer_instructions]
  fun_cases Block.restOfTokens base ts
  · case case1 width l rest hw =>
    rw [Block.restOfTokens, if_pos hw, answer_stop, Answer.map_error]
    refine .peek ?_
    simp only [if_pos hw]
    exact .stop _ hts
  · case case2 width l rest hw hw' =>
    rw [Block.restOfTokens, if_neg hw, if_pos hw', answer_found, Answer.map_ok, List.append_nil]
    refine .peek ?_
    simp only [if_neg hw, if_pos hw']
    exact .pure _ hts
  · case case3 width l rest hw hw' =>
    simp only [Block.restOfTokens, if_neg hw, if_neg hw', answer_loosen, answer_andThen,
      answer_found, Answer.map_andThen, Answer.map_ok]
    refine .peek ?_
    simp only [if_neg hw, if_neg hw']
    have hn : rest.length < (⟨.indent width, l⟩ :: rest).length := Nat.lt_succ_self _
    refine .bind (instruction_gives base h hn rfl hts) fun stmt behind hr _ hbehind => ?_
    have hmore := h.later (g := .instructions base (before ++ [stmt])) (shorter hr) hbehind
    rwa [Goal.answer_instructions, Answer.map_append] at hmore
  · case case4 hne =>
    obtain ⟨⟨kind, l⟩, rest, rfl⟩ := hts.exists_cons
    rw [Block.restOfTokens, answer_found, Answer.map_ok, List.append_nil]
    · refine .peek ?_
      cases kind with
      | indent width => exact (hne width l rest rfl).elim
      | _ => exact .pure _ hts
    · exact hne

theorem block_gives (h : Settled ts.length 1) (hts : Terminated ts) :
    block.Gives ts.length 1 ts (Block.ofTokens ts).answer := by
  fun_cases Block.ofTokens ts
  · case case1 base l rest =>
    have hlines := h.descend (g := .instructions base []) (.inr ⟨rfl, Nat.one_pos⟩) hts
    rw [Goal.answer_instructions, Answer.map_nil_append, Block.restOfTokens_line] at hlines
    simp only [Block.ofTokens, answer_andThen, answer_found]
    exact .peek hlines
  · case case2 hne =>
    obtain ⟨⟨kind, l⟩, rest, rfl⟩ := hts.exists_cons
    rw [Block.ofTokens, answer_missing]
    · refine .peek ?_
      cases kind with
      | indent width => exact (hne width l rest rfl).elim
      | _ => exact .missing _ hts
    · exact hne

theorem program_gives (h : Settled ts.length 2) (hts : Terminated ts) :
    program.Gives ts.length 2 ts (Block.programOfTokens ts).answer := by
  have hend : ∀ stmts {rest : List Token}, Terminated rest →
      (Parse.peek 0 >>= fun kind => if kind = .endOfFile then Pure.pure stmts
        else Parse.missing .endOfFile : Parse Block).Gives ts.length 2 rest
        (Block.endOfTokens stmts rest) := by
    intro stmts rest hrest
    obtain ⟨⟨kind, l⟩, behind, rfl⟩ := hrest.exists_cons
    refine .peek ?_
    cases kind with
    | endOfFile => exact .pure _ hrest
    | _ => exact .missing _ hrest
  rw [Block.programOfTokens_answer]
  fun_cases Block.outermostOfTokens ts
  · case case1 width l line =>
    rw [Block.outermostOfTokens, answer_loosen]
    refine .peek (.bind (h.descend (.inr ⟨rfl, by decide⟩) hts) ?_)
    exact fun stmts rest _ _ hrest => hend stmts hrest
  · case case2 hne =>
    obtain ⟨⟨kind, l⟩, rest, rfl⟩ := hts.exists_cons
    rw [Block.outermostOfTokens, answer_found, Answer.ok_andThen]
    · refine .peek ?_
      cases kind with
      | indent width => exact (hne width l rest rfl).elim
      | _ => exact hend [] hts
    · exact hne

/-- What a rule does by itself, if the rules it may descend to give the answers of the readers. -/
theorem body_gives (g : Goal) (h : Settled ts.length g.rank) (hts : Terminated ts) :
    g.body.Gives ts.length g.rank ts (g.answer ts) :=
  match g with
  | .expr => assignment_gives h hts
  | .level l => level_gives l h hts
  | .operations l lhs => operations_gives l lhs h hts
  | .indexed => indexed_gives h hts
  | .indices lhs => indices_gives lhs h hts
  | .operand => operand_gives h hts
  | .elements close what before => elements_gives close what before h hts
  | .type => type_gives h hts
  | .params before => params_gives before h hts
  | .block => block_gives h hts
  | .instructions base before => instructions_gives base before h hts
  | .program => program_gives h hts

/-- All rules give the answers of the readers. By induction on how many tokens are left, and then on
the rank. -/
theorem gives (g : Goal) (ts : List Token) (hts : Terminated ts) :
    g.body.Gives ts.length g.rank ts (g.answer ts) :=
  body_gives g (fun g' ts' _ hts' => gives g' ts' hts') hts
termination_by (ts.length, g.rank)
decreasing_by
  rename_i hn
  obtain hn | ⟨hl, hk⟩ := hn
  · exact .left _ _ hn
  · rw [hl]
    exact .right _ hk

end Parse

end Offside
