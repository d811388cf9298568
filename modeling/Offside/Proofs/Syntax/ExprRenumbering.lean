import Offside.Proofs.Syntax.ExprReads
import Offside.Proofs.Token.Renumbering

/-!
Expressions are read from tokens whatever the numbers of their lines are. The numbers come back in
the locations of faults, and an expression has none.
-/

namespace Offside

open Token
open Reply (answer_andThen answer_loosen answer_found)

variable {α β α' β' : Type} {g : Nat → Nat}

/-! Answers. -/

def Answer.renumber (g : Nat → Nat) (f : α → α') : Answer α → Answer α'
  | .ok a rest => .ok (f a) (rest.map (Token.renumber g))
  | .error fault rest => .error (fault.renumber g) (rest.map (Token.renumber g))

theorem Answer.andThen_renumber {f : α → α'} {h : β → β'} {first : Answer α} {first' : Answer α'}
    {second : α → List Token → Answer β} {second' : α' → List Token → Answer β'}
    (hfirst : first' = first.renumber g f)
    (hsecond : ∀ a rest, first = .ok a rest →
      second' (f a) (rest.map (Token.renumber g)) = (second a rest).renumber g h) :
    first'.andThen second' = (first.andThen second).renumber g h := by
  subst hfirst
  cases first with
  | ok a rest => exact hsecond a rest rfl
  | error fault rest => rfl

namespace Token

theorem map_renumber_cons (k : TokenKind) (l : Location) (ts : List Token) :
    (⟨k, l⟩ :: ts).map (renumber g) = ⟨k, l.renumber g⟩ :: ts.map (renumber g) :=
  rfl

/-- The other tokens begin as these ones do. -/
@[grind →]
theorem map_renumber_eq_cons {ts rest : List Token} {k : TokenKind} {l : Location}
    (h : ts.map (renumber g) = ⟨k, l⟩ :: rest) :
    ∃ l' rest', ts = ⟨k, l'⟩ :: rest' ∧ rest'.map (renumber g) = rest := by
  obtain ⟨⟨k', l'⟩, rest', rfl, ht, hrest⟩ := List.map_eq_cons_iff.1 h
  cases ht
  exact ⟨l', rest', rfl, hrest⟩

theorem map_renumber_eq_cons_cons {ts rest : List Token} {k₁ k₂ : TokenKind} {l₁ l₂ : Location}
    (h : ts.map (renumber g) = ⟨k₁, l₁⟩ :: ⟨k₂, l₂⟩ :: rest) :
    ∃ l₁' l₂' rest', ts = ⟨k₁, l₁'⟩ :: ⟨k₂, l₂'⟩ :: rest' := by
  obtain ⟨l₁', rest₁, rfl, hrest⟩ := map_renumber_eq_cons h
  obtain ⟨l₂', rest₂, rfl, -⟩ := map_renumber_eq_cons hrest
  exact ⟨l₁', l₂', rest₂, rfl⟩

section Stops

variable (hg : g 0 = 0)

include hg

/-- Where there is no token, the line is zero, which has to keep its number. -/
theorem here_renumber (ts : List Token) :
    here (ts.map (renumber g)) = (here ts).renumber g := by
  cases ts with
  | nil => rw [List.map_nil, here, Location.renumber, hg]
  | cons t ts => rfl

theorem stop_renumber {n n' : Nat} (f : α → α') (cause : SyntaxError) (ts : List Token) :
    (stop cause (ts.map (renumber g)) : Reply α' n').answer =
      (stop cause ts : Reply α n).answer.renumber g f := by
  rw [answer_stop, answer_stop, here_renumber hg]
  rfl

theorem missing_renumber {n n' : Nat} (f : α → α') (what : Expectation) (ts : List Token) :
    (missing what (ts.map (renumber g)) : Reply α' n').answer =
      (missing what ts : Reply α n).answer.renumber g f :=
  stop_renumber hg f _ ts

theorem expect_renumber (op : Operator) (what : Expectation) (ts : List Token) :
    (expect op what (ts.map (renumber g))).answer = (expect op what ts).answer.renumber g id := by
  fun_cases expect op what ts
  · case case1 loc rest =>
    rw [map_renumber_cons, expect, expect, if_pos rfl, if_pos rfl]
    rfl
  · case case2 o loc rest ho =>
    rw [map_renumber_cons, expect, expect, if_neg ho, if_neg ho]
    exact missing_renumber hg id what (⟨.operator o, loc⟩ :: rest)
  · rw [expect, expect]
    · exact missing_renumber hg id what ts
    · grind
    · grind

theorem expectLineEnd_renumber (what : Expectation) (ts : List Token) :
    (expectLineEnd what (ts.map (renumber g))).answer =
      (expectLineEnd what ts).answer.renumber g id := by
  fun_cases expectLineEnd what ts
  · rfl
  · rw [expectLineEnd, expectLineEnd]
    · exact missing_renumber hg id what ts
    · grind
    · grind

theorem expectName_renumber (what : Expectation) (ts : List Token) :
    (expectName what (ts.map (renumber g))).answer =
      (expectName what ts).answer.renumber g id := by
  fun_cases expectName what ts
  · rfl
  · rw [expectName, expectName]
    · exact missing_renumber hg id what ts
    · grind
    · grind

end Stops

end Token

namespace Expr

mutual

theorem ofTokens_renumber (hg : g 0 = 0) (ts : List Token) :
    (ofTokens (ts.map (renumber g))).answer = (ofTokens ts).answer.renumber g id := by
  simp only [ofTokens, answer_andThen]
  refine Answer.andThen_renumber (ofLevel_renumber hg .disjunction ts) fun lhs rest hr => ?_
  have := Reply.shorter hr
  exact ofAssigned_renumber hg lhs rest
termination_by 16 * ts.length + 9
decreasing_by
  · simp [Level.rank]
  · omega

theorem ofAssigned_renumber (hg : g 0 = 0) (lhs : Expr) (ts : List Token) :
    (ofAssigned lhs (ts.map (renumber g))).answer = (ofAssigned lhs ts).answer.renumber g id := by
  generalize ht : ts = given
  fun_cases ofAssigned lhs given
  · case case1 op loc right base ho =>
    rw [map_renumber_cons]
    simp only [ofAssigned, ho, answer_loosen, answer_andThen, answer_found]
    exact Answer.andThen_renumber (ofTokens_renumber hg right) fun rhs rest _ => rfl
  · case case2 op loc right ho =>
    rw [map_renumber_cons]
    simp only [ofAssigned, ho, answer_found]
    rfl
  · rw [ofAssigned, ofAssigned]
    · rfl
    · grind
    · grind
termination_by 16 * ts.length

theorem ofLevel_renumber (hg : g 0 = 0) (l : Level) (ts : List Token) :
    (ofLevel l (ts.map (renumber g))).answer = (ofLevel l ts).answer.renumber g id := by
  by_cases hl : l = .unary
  · rw [hl, ofLevel_unary, ofLevel_unary]
    exact ofUnary_renumber hg ts
  · rw [ofLevel_answer hl, ofLevel_answer hl]
    refine Answer.andThen_renumber (ofLevel_renumber hg l.tighter ts) fun lhs rest hr => ?_
    have := Reply.shorter hr
    exact ofLevelRest_renumber hg l lhs rest
termination_by 16 * ts.length + l.rank + 3
decreasing_by
  · omega
  · have := Level.rank_tighter_lt hl; omega
  · omega

theorem ofLevelRest_renumber (hg : g 0 = 0) (l : Level) (lhs : Expr) (ts : List Token) :
    (ofLevelRest l lhs (ts.map (renumber g))).answer =
      (ofLevelRest l lhs ts).answer.renumber g id := by
  generalize ht : ts = given
  fun_cases ofLevelRest l lhs given
  · case case1 op loc right o ho =>
    rw [map_renumber_cons]
    simp only [ofLevelRest, ho, answer_loosen, answer_andThen]
    refine Answer.andThen_renumber (ofLevel_renumber hg l.tighter right) fun rhs rest hr => ?_
    have := Reply.shorter hr
    exact ofLevelRest_renumber hg l _ rest
  · case case2 op loc right ho =>
    rw [map_renumber_cons]
    simp only [ofLevelRest, ho, answer_found]
    rfl
  · rw [ofLevelRest, ofLevelRest]
    · rfl
    · grind
    · grind
termination_by 16 * ts.length
decreasing_by
  · have := l.tighter.rank_le; simp [ht]; omega
  · simp [ht]; omega

theorem ofUnary_renumber (hg : g 0 = 0) (ts : List Token) :
    (ofUnary (ts.map (renumber g))).answer = (ofUnary ts).answer.renumber g id := by
  generalize ht : ts = given
  fun_cases ofUnary given
  · case case1 op loc right o ho =>
    rw [map_renumber_cons]
    simp only [ofUnary, ho, answer_loosen, answer_andThen, answer_found]
    exact Answer.andThen_renumber (ofUnary_renumber hg right) fun arg rest _ => rfl
  · case case2 op loc right ho =>
    have h := ofIndexed_renumber hg (⟨.operator op, loc⟩ :: right)
    rw [map_renumber_cons]
    simp only [ofUnary, ho]
    exact h
  · rw [ofUnary, ofUnary]
    · exact ofIndexed_renumber hg _
    · grind
    · grind
termination_by 16 * ts.length + 2

theorem ofIndexed_renumber (hg : g 0 = 0) (ts : List Token) :
    (ofIndexed (ts.map (renumber g))).answer = (ofIndexed ts).answer.renumber g id := by
  simp only [ofIndexed, answer_andThen]
  refine Answer.andThen_renumber (ofOperand_renumber hg ts) fun lhs rest hr => ?_
  have := Reply.shorter hr
  exact ofIndices_renumber hg lhs rest
termination_by 16 * ts.length + 1

theorem ofIndices_renumber (hg : g 0 = 0) (lhs : Expr) (ts : List Token) :
    (ofIndices lhs (ts.map (renumber g))).answer = (ofIndices lhs ts).answer.renumber g id := by
  generalize ht : ts = given
  fun_cases ofIndices lhs given
  · case case1 loc inside =>
    rw [map_renumber_cons]
    simp only [ofIndices, answer_loosen, answer_andThen]
    refine Answer.andThen_renumber (ofTokens_renumber hg inside) fun index rest hr => ?_
    have := Reply.shorter hr
    refine Answer.andThen_renumber (expect_renumber hg _ _ rest) fun _ rest hr => ?_
    have := Reply.shorter hr
    exact ofIndices_renumber hg _ rest
  · rw [ofIndices, ofIndices]
    · rfl
    · grind
    · grind
termination_by 16 * ts.length
decreasing_by all_goals grind

theorem ofOperand_renumber (hg : g 0 = 0) (ts : List Token) :
    (ofOperand (ts.map (renumber g))).answer = (ofOperand ts).answer.renumber g id := by
  generalize ht : ts = given
  fun_cases ofOperand given
  · case case1 b loc rest =>
    rw [map_renumber_cons, ofOperand, ofOperand]
    rfl
  · case case2 x loc rest =>
    rw [map_renumber_cons, ofOperand, ofOperand]
    rfl
  · case case3 s loc rest =>
    rw [map_renumber_cons, ofOperand, ofOperand]
    rfl
  · case case4 name loc parenLoc inside =>
    rw [map_renumber_cons, map_renumber_cons]
    simp only [ofOperand, answer_loosen, answer_andThen, answer_found]
    exact Answer.andThen_renumber (listOfTokens_renumber hg _ _ inside) fun args rest _ => rfl
  · case case5 name loc rest hne =>
    rw [map_renumber_cons, ofOperand, ofOperand]
    · rfl
    · grind
    · grind
  · case case6 loc inside =>
    rw [map_renumber_cons]
    simp only [ofOperand, answer_loosen, answer_andThen, answer_found]
    refine Answer.andThen_renumber (ofTokens_renumber hg inside) fun e rest _ => ?_
    exact Answer.andThen_renumber (expect_renumber hg _ _ rest) fun _ rest _ => rfl
  · case case7 loc inside =>
    rw [map_renumber_cons]
    simp only [ofOperand, answer_loosen, answer_andThen, answer_found]
    exact Answer.andThen_renumber (listOfTokens_renumber hg _ _ inside) fun args rest _ => rfl
  · rw [ofOperand, ofOperand]
    · exact missing_renumber hg id .operand given
    all_goals grind
termination_by 16 * ts.length

theorem listOfTokens_renumber (hg : g 0 = 0) (close : Operator) (what : Expectation)
    (ts : List Token) :
    (listOfTokens close what (ts.map (renumber g))).answer =
      (listOfTokens close what ts).answer.renumber g id := by
  generalize ht : ts = given
  fun_cases listOfTokens close what given
  · case case1 loc rest =>
    rw [map_renumber_cons, listOfTokens, listOfTokens, if_pos rfl, if_pos rfl]
    rfl
  · case case2 op loc rest hop =>
    have h := nonemptyOfTokens_renumber hg close what (⟨.operator op, loc⟩ :: rest)
    rw [map_renumber_cons, listOfTokens, listOfTokens, if_neg hop, if_neg hop]
    exact h
  · rw [listOfTokens, listOfTokens]
    · exact nonemptyOfTokens_renumber hg close what _
    · grind
    · grind
termination_by 16 * ts.length + 11

theorem nonemptyOfTokens_renumber (hg : g 0 = 0) (close : Operator) (what : Expectation)
    (ts : List Token) :
    (nonemptyOfTokens close what (ts.map (renumber g))).answer =
      (nonemptyOfTokens close what ts).answer.renumber g id := by
  simp only [nonemptyOfTokens, answer_andThen, answer_loosen]
  refine Answer.andThen_renumber (ofTokens_renumber hg ts) fun e rest hr => ?_
  have := Reply.shorter hr
  exact listRestOfTokens_renumber hg close what e rest
termination_by 16 * ts.length + 10

theorem listRestOfTokens_renumber (hg : g 0 = 0) (close : Operator) (what : Expectation) (e : Expr)
    (ts : List Token) :
    (listRestOfTokens close what e (ts.map (renumber g))).answer =
      (listRestOfTokens close what e ts).answer.renumber g id := by
  generalize ht : ts = given
  fun_cases listRestOfTokens close what e given
  · case case1 loc rest =>
    rw [map_renumber_cons, listRestOfTokens, listRestOfTokens, if_pos rfl, if_pos rfl]
    rfl
  · case case2 loc rest hop =>
    rw [map_renumber_cons]
    simp only [listRestOfTokens, if_neg hop, if_true, answer_loosen, answer_andThen, answer_found]
    exact Answer.andThen_renumber (nonemptyOfTokens_renumber hg close what rest)
      fun es rest _ => rfl
  · case case3 op loc rest hop hcomma =>
    rw [map_renumber_cons, listRestOfTokens, listRestOfTokens, if_neg hop, if_neg hop,
      if_neg hcomma, if_neg hcomma]
    exact missing_renumber hg id what (⟨.operator op, loc⟩ :: rest)
  · rw [listRestOfTokens, listRestOfTokens]
    · exact missing_renumber hg id what given
    · grind
    · grind
termination_by 16 * ts.length

end

end Expr

end Offside
