import Offside.Proofs.Syntax.Answers
import Offside.Syntax.ExprOfTokens

/-!
Expressions are read as the grammar says: what is read is derived, and reading stops at the first
token that no expression has there.
-/

namespace Offside.Expr

open Token Reply

namespace Level

def toRank : Level → Rank
  | .unary => .unary
  | .multiplicative => .multiplicative
  | .additive => .additive
  | .predicate => .predicate
  | .conjunction => .conjunction
  | .disjunction => .disjunction

theorem toRank_tighter {l : Level} (h : l ≠ .unary) : l.tighter.toRank = l.toRank.tighter := by
  cases l with
  | unary => exact absurd rfl h
  | _ => rfl

theorem toRank_ne (l : Level) : l.toRank ≠ .operand := by
  cases l <;> nofun

theorem operation?_eq_some {l : Level} {op : Operator} {o : Operation} :
    l.operation? op = some o ↔ (op, o) ∈ l.toRank.operations := by
  cases l <;> simp only [toRank, Rank.operations, List.mem_cons, List.not_mem_nil, Prod.mk.injEq,
    or_false]
  all_goals cases op <;> simp [operation?, eq_comm]

end Level

theorem assignment?_eq_some {op : Operator} {base : Option Operation} :
    assignment? op = some base ↔ (op, base) ∈ assignments := by
  cases op <;> simp [assignment?, assignments, eq_comm]

theorem unaryOp?_eq_some {op : Operator} {o : UnaryOp} :
    unaryOp? op = some o ↔ (op, o) ∈ signs := by
  cases op <;> simp [unaryOp?, signs, eq_comm]

namespace Rank

/-- How tight a level is. -/
def depth : Rank → Nat
  | .assignment => 0
  | .disjunction => 1
  | .conjunction => 2
  | .predicate => 3
  | .additive => 4
  | .multiplicative => 5
  | .unary => 6
  | .suffix => 7
  | .operand => 8

theorem depth_tighter {r : Rank} (h : r ≠ .operand) : r.tighter.depth = r.depth + 1 := by
  cases r with
  | operand => exact absurd rfl h
  | _ => rfl

theorem depth_le (r : Rank) : r.depth ≤ Rank.operand.depth := by
  cases r <;> decide

theorem eq_of_depth {r r' : Rank} (h : r.depth = r'.depth) : r = r' := by
  cases r <;> cases r' <;> first | rfl | cases h

end Rank

/-- An expression of a level is one of every looser level. -/
theorem Derives.looser (h : Derives r w e) (hr : r'.depth ≤ r.depth) : Derives r' w e := by
  by_cases he : r'.depth = r.depth
  · rwa [Rank.eq_of_depth he]
  · have hne : r' ≠ .operand := by
      rintro rfl
      exact he (Nat.le_antisymm hr r.depth_le)
    have := Rank.depth_tighter hne
    exact .tighter hne (h.looser (by omega))
termination_by r.depth - r'.depth

/-- Something that can stand wherever an expression is missing. -/
def sample : List Token :=
  [⟨.boolean true, ⟨0, 0⟩⟩]

theorem sample_derives (r : Rank) : Derives r sample (.boolean true) :=
  Derives.boolean.looser r.depth_le

theorem ofLevel_unary (ts : List Token) : ofLevel .unary ts = ofUnary ts := by
  rw [ofLevel, dif_pos rfl]

theorem ofLevel_answer {l : Level} (hl : l ≠ .unary) (ts : List Token) :
    (ofLevel l ts).answer =
      (ofLevel l.tighter ts).answer.andThen fun lhs rest => (ofLevelRest l lhs rest).answer := by
  rw [ofLevel, dif_neg hl, answer_andThen]

mutual

theorem ofTokens_reads (ts : List Token) :
    Reads R A (fun ts => (ofTokens ts).answer) (Derives .assignment) ts := by
  simp only [ofTokens, answer_andThen]
  refine .andThen (ofLevel_reads .disjunction ts) (fun w lhs rest hr hw => ?_)
    fun w e hw => .of (.tighter nofun hw)
  have := shorter hr
  exact (ofAssigned_reads lhs rest).imp fun w' e h => h w hw
termination_by 16 * ts.length + 9
decreasing_by
  · simp [Level.rank]
  · omega

theorem ofAssigned_reads (lhs : Expr) (ts : List Token) :
    Reads R A (fun ts => (ofAssigned lhs ts).answer)
      (fun w e => ∀ w₀, Derives .disjunction w₀ lhs → Derives .assignment (w₀ ++ w) e) ts := by
  generalize ht : ts = given
  fun_cases ofAssigned lhs given
  · case case1 op loc right base ho =>
    refine .cons ?_
    simp only [ofAssigned, ho, answer_loosen, answer_andThen, answer_found]
    exact .map (ofTokens_reads right) fun w rhs hr w₀ hl =>
      .assign (assignment?_eq_some.1 ho) hl hr
  · case case2 op loc right ho =>
    refine .found lhs (fun w₀ hl => by simpa using .tighter nofun hl) fun ts' hs => ?_
    obtain ⟨right', rfl⟩ := hs.symm.eq_cons
    simp only [ofAssigned, ho, answer_found]
  · refine .found lhs (fun w₀ hl => by simpa using .tighter nofun hl) fun ts' hs => ?_
    rw [ofAssigned, answer_found]
    grind
termination_by 16 * ts.length

theorem ofLevel_reads (l : Level) (ts : List Token) :
    Reads R A (fun ts => (ofLevel l ts).answer) (Derives l.toRank) ts := by
  by_cases hl : l = .unary
  · simp only [hl, ofLevel_unary]
    exact ofUnary_reads ts
  · simp only [ofLevel_answer hl]
    have hd : ∀ w lhs, Derives l.tighter.toRank w lhs → Derives l.toRank w lhs :=
      fun w lhs h => .tighter l.toRank_ne (Level.toRank_tighter hl ▸ h)
    refine .andThen (ofLevel_reads l.tighter ts) (fun w lhs rest hr hw => ?_)
      fun w e hw => .of (hd w e hw)
    have := shorter hr
    exact (ofLevelRest_reads l lhs rest).imp fun w' e h => h w (hd w lhs hw)
termination_by 16 * ts.length + l.rank + 3
decreasing_by
  · omega
  · have := Level.rank_tighter_lt hl; omega
  · omega

theorem ofLevelRest_reads (l : Level) (lhs : Expr) (ts : List Token) :
    Reads R A (fun ts => (ofLevelRest l lhs ts).answer)
      (fun w e => ∀ w₀, Derives l.toRank w₀ lhs → Derives l.toRank (w₀ ++ w) e) ts := by
  generalize ht : ts = given
  fun_cases ofLevelRest l lhs given
  · case case1 op loc right o ho =>
    have hne : l ≠ .unary := by
      rintro rfl
      cases op <;> cases ho
    have hd : ∀ w rhs w₀, Derives l.tighter.toRank w rhs → Derives l.toRank w₀ lhs →
        Derives l.toRank (w₀ ++ ⟨.operator op, loc⟩ :: w) (.binary lhs (.operation o) rhs) :=
      fun w rhs w₀ hr hl =>
        .operation (Level.operation?_eq_some.1 ho) hl (Level.toRank_tighter hne ▸ hr)
    refine .cons ?_
    simp only [ofLevelRest, ho, answer_loosen, answer_andThen]
    refine .andThen (ofLevel_reads l.tighter right) (fun w rhs rest hr hw => ?_)
      fun w rhs hw => .of fun w₀ hl => hd w rhs w₀ hw hl
    have := shorter hr
    refine (ofLevelRest_reads l _ rest).imp fun w' e h w₀ hl => ?_
    simpa using h _ (hd w rhs w₀ hw hl)
  · case case2 op loc right ho =>
    refine .found lhs (fun w₀ hl => by simpa using hl) fun ts' hs => ?_
    obtain ⟨right', rfl⟩ := hs.symm.eq_cons
    simp only [ofLevelRest, ho, answer_found]
  · refine .found lhs (fun w₀ hl => by simpa using hl) fun ts' hs => ?_
    rw [ofLevelRest, answer_found]
    grind
termination_by 16 * ts.length
decreasing_by
  · have := l.tighter.rank_le; simp [ht]; omega
  · simp [ht]; omega

theorem ofUnary_reads (ts : List Token) :
    Reads R A (fun ts => (ofUnary ts).answer) (Derives .unary) ts := by
  generalize ht : ts = given
  fun_cases ofUnary given
  · case case1 op loc right o ho =>
    refine .cons ?_
    simp only [ofUnary, ho, answer_loosen, answer_andThen, answer_found]
    exact .map (ofUnary_reads right) fun w e h => .sign (unaryOp?_eq_some.1 ho) h
  · case case2 op loc right ho =>
    refine .congr _ ((ofIndexed_reads _).imp fun w e h => .tighter nofun h) fun ts' hs => ?_
    obtain ⟨right', rfl⟩ := hs.symm.eq_cons
    simp only [ofUnary, ho]
  · refine .congr _ ((ofIndexed_reads _).imp fun w e h => .tighter nofun h) fun ts' hs => ?_
    rw [ofUnary]
    grind
termination_by 16 * ts.length + 2

theorem ofIndexed_reads (ts : List Token) :
    Reads R A (fun ts => (ofIndexed ts).answer) (Derives .suffix) ts := by
  simp only [ofIndexed, answer_andThen]
  refine .andThen (ofOperand_reads ts) (fun w lhs rest hr hw => ?_)
    fun w e hw => .of (.tighter nofun hw)
  have := shorter hr
  exact (ofIndices_reads lhs rest).imp fun w' e h => h w (.tighter nofun hw)
termination_by 16 * ts.length + 1

theorem ofIndices_reads (lhs : Expr) (ts : List Token) :
    Reads R A (fun ts => (ofIndices lhs ts).answer)
      (fun w e => ∀ w₀, Derives .suffix w₀ lhs → Derives .suffix (w₀ ++ w) e) ts := by
  generalize ht : ts = given
  fun_cases ofIndices lhs given
  · case case1 l₁ inside =>
    have hd : ∀ w i w₀ l₂, Derives .assignment w i → Derives .suffix w₀ lhs →
        Derives .suffix (w₀ ++ ⟨.operator .openSquare, l₁⟩ :: (w ++ [⟨.operator .closeSquare, l₂⟩]))
          (.binary lhs .index i) := fun w i w₀ l₂ hi hl => .index hl hi
    refine .cons ?_
    simp only [ofIndices, answer_loosen, answer_andThen]
    refine .andThen (ofTokens_reads inside) (fun w i rest hr hw => ?_)
      fun w i hw => ⟨[⟨.operator .closeSquare, ⟨0, 0⟩⟩], _, fun w₀ hl => hd w i w₀ _ hw hl⟩
    have := shorter hr
    refine .andThen (expect_reads _ _ rest) ?_ ?_
    · rintro w' ⟨⟩ rest' hr' ⟨l₂, rfl⟩
      have := shorter hr'
      refine (ofIndices_reads _ rest').imp fun w'' e h w₀ hl => ?_
      simpa using h _ (hd w i w₀ l₂ hw hl)
    · rintro w' - ⟨l₂, rfl⟩
      exact .of fun w₀ hl => hd w i w₀ l₂ hw hl
  · refine .found lhs (fun w₀ hl => by simpa using hl) fun ts' hs => ?_
    rw [ofIndices, answer_found]
    grind
termination_by 16 * ts.length
decreasing_by all_goals grind

theorem ofOperand_reads (ts : List Token) :
    Reads R A (fun ts => (ofOperand ts).answer) (Derives .operand) ts := by
  generalize ht : ts = given
  fun_cases ofOperand given
  · refine .cons ?_
    simp only [ofOperand, answer_found]
    exact .found _ .boolean fun _ _ => rfl
  · refine .cons ?_
    simp only [ofOperand, answer_found]
    exact .found _ .number fun _ _ => rfl
  · refine .cons ?_
    simp only [ofOperand, answer_found]
    exact .found _ .string fun _ _ => rfl
  · refine .cons (.cons ?_)
    simp only [ofOperand, answer_loosen, answer_andThen, answer_found]
    refine .map (listOfTokens_reads .closeParen _ _) ?_
    rintro w args ⟨h⟩
    exact .call h
  · refine .cons (.found _ .identifier fun ts' hs => ?_)
    rw [ofOperand, answer_found]
    grind
  · refine .cons ?_
    simp only [ofOperand, answer_loosen, answer_andThen, answer_found]
    refine .andThen (ofTokens_reads _) (fun w e rest hr hw => ?_)
      fun w e hw => ⟨[⟨.operator .closeParen, ⟨0, 0⟩⟩], e, .paren hw⟩
    refine .map (expect_reads _ _ rest) ?_
    rintro w' - ⟨l₂, rfl⟩
    exact .paren hw
  · refine .cons ?_
    simp only [ofOperand, answer_loosen, answer_andThen, answer_found]
    refine .map (listOfTokens_reads .closeSquare _ _) ?_
    rintro w es ⟨h⟩
    exact .list h
  · refine .missing .operand ⟨sample, _, sample_derives _⟩ fun ts' hs => ?_
    rw [ofOperand, answer_missing] <;> grind
termination_by 16 * ts.length

theorem listOfTokens_reads (close : Operator) (what : Expectation) (ts : List Token) :
    Reads R A (fun ts => (listOfTokens close what ts).answer) (Ended (.operator close) Elements)
      ts := by
  have hn : ∀ w es, Ended (.operator close) Separated w es →
      Ended (.operator close) Elements w es := by
    rintro w es ⟨h⟩
    exact ⟨.some h⟩
  generalize ht : ts = given
  fun_cases listOfTokens close what given
  · refine .cons ?_
    simp only [listOfTokens, if_true, answer_found]
    exact .found _ (.intro Elements.none) fun _ _ => rfl
  · case case2 op l₁ rest h =>
    refine .congr _ ((nonemptyOfTokens_reads close what _).imp hn) fun ts' hs => ?_
    obtain ⟨rest', rfl⟩ := hs.symm.eq_cons
    simp only [listOfTokens, if_neg h]
  · refine .congr _ ((nonemptyOfTokens_reads close what _).imp hn) fun ts' hs => ?_
    rw [listOfTokens]
    grind
termination_by 16 * ts.length + 11

theorem nonemptyOfTokens_reads (close : Operator) (what : Expectation) (ts : List Token) :
    Reads R A (fun ts => (nonemptyOfTokens close what ts).answer)
      (Ended (.operator close) Separated) ts := by
  simp only [nonemptyOfTokens, answer_andThen, answer_loosen]
  refine .andThen (ofTokens_reads ts) (fun w e rest hr hw => ?_)
    fun w e hw => Ended.completable (Separated.one hw)
  have := shorter hr
  exact (listRestOfTokens_reads close what e rest).imp fun w' es h => h w hw
termination_by 16 * ts.length + 10

theorem listRestOfTokens_reads (close : Operator) (what : Expectation) (e : Expr)
    (ts : List Token) :
    Reads R A (fun ts => (listRestOfTokens close what e ts).answer)
      (fun w es => ∀ w₀, Derives .assignment w₀ e →
        Ended (.operator close) Separated (w₀ ++ w) es) ts := by
  have hc : Completable (fun w es => ∀ w₀, Derives .assignment w₀ e →
      Ended (.operator close) Separated (w₀ ++ w) es) [] :=
    ⟨[⟨.operator close, ⟨0, 0⟩⟩], [e], fun w₀ h => ⟨.one h⟩⟩
  generalize ht : ts = given
  fun_cases listRestOfTokens close what e given
  · refine .cons ?_
    simp only [listRestOfTokens, if_true, answer_found]
    exact .found _ (fun w₀ h => ⟨.one h⟩) fun _ _ => rfl
  · case case2 rest h =>
    refine .cons ?_
    simp only [listRestOfTokens, if_neg h, if_true, answer_loosen, answer_andThen, answer_found]
    refine .map (nonemptyOfTokens_reads close what rest) ?_
    rintro w es ⟨hs⟩ w₀ he
    simpa using Ended.intro (Separated.more he hs)
  · case case3 op l₁ rest h h' =>
    refine .missing what hc fun ts' hs => ?_
    obtain ⟨rest', rfl⟩ := hs.symm.eq_cons
    simp only [listRestOfTokens, if_neg h, if_neg h', answer_missing]
  · refine .missing what hc fun ts' hs => ?_
    rw [listRestOfTokens, answer_missing]
    grind
termination_by 16 * ts.length

end

end Offside.Expr
