import Offside.Proofs.Syntax.ExprReads

/-!
Every expression of the grammar is read, up to a token that cannot continue it. Together with what
is known of the reader, this says exactly which tokens are read and as which expression.
-/

namespace Offside

/-- The tokens that stand behind a whole expression. -/
def TokenKind.endsExpr : TokenKind → Bool
  | .lineFeed | .operator .closeParen | .operator .closeSquare | .operator .comma => true
  | _ => false

namespace Expr

open Token
open Reply (answer_andThen answer_loosen answer_found)

namespace Rank

/-- The operators behind an expression of the level that make it a longer one of the same level. A
name is continued by the arguments of a call. -/
def continuing : Rank → List Operator
  | .assignment => assignments.map Prod.fst
  | .suffix => [.openSquare]
  | .operand => [.openParen]
  | r => r.operations.map Prod.fst

theorem mem_continuing {r : Rank} (h : (op, o) ∈ r.operations) : op ∈ r.continuing := by
  have hm := List.mem_map_of_mem (f := Prod.fst) h
  cases r with
  | assignment | suffix | operand => cases h
  | _ => exact hm

theorem continuing_unique {r r' : Rank} {op : Operator} (h : op ∈ r.continuing)
    (h' : op ∈ r'.continuing) : r = r' := by
  revert op
  cases r <;> cases r' <;> decide

/-- The level from which on nothing may continue an expression of the level that is about to be
continued on the level itself. -/
def guard : Rank → Rank
  | .assignment => .assignment
  | r => r.tighter

end Rank

/-- The next token continues no expression of the level, nor of a tighter one. -/
def Stops (r : Rank) (ts : List Token) : Prop :=
  ∀ op l rest (r' : Rank), ts = ⟨.operator op, l⟩ :: rest → r.depth ≤ r'.depth → op ∉ r'.continuing

namespace Stops

theorem mono (h : Stops r ts) (hr : r.depth ≤ r'.depth) : Stops r' ts :=
  fun op l rest r'' ht hd => h op l rest r'' ht (Nat.le_trans hr hd)

theorem of_continuing {r : Rank} (h : op ∈ r.continuing) (hr : r.depth < r'.depth) :
    Stops r' (⟨.operator op, l⟩ :: rest) := by
  rintro op l rest r'' ⟨⟩ hd hop
  rw [Rank.continuing_unique h hop] at hr
  omega

theorem of_ends {t : Token} (h : t.kind.endsExpr) (r : Rank) : Stops r (t :: rest) := by
  rintro op l rest r' ⟨⟩ -
  cases op with
  | closeParen | closeSquare | comma => cases r' <;> decide
  | _ => cases h

end Stops

/-- The levels of operations between two operands are alike. -/
@[elab_as_elim]
theorem Rank.cases_level {motive : Rank → Prop} (assignment : motive .assignment)
    (level : ∀ l : Level, l ≠ .unary → motive l.toRank) (unary : motive .unary)
    (suffix : motive .suffix) (operand : motive .operand) (r : Rank) : motive r := by
  cases r with
  | assignment => exact assignment
  | disjunction => exact level .disjunction (by decide)
  | conjunction => exact level .conjunction (by decide)
  | predicate => exact level .predicate (by decide)
  | additive => exact level .additive (by decide)
  | multiplicative => exact level .multiplicative (by decide)
  | unary => exact unary
  | suffix => exact suffix
  | operand => exact operand

/-- An expression of the level is read. -/
def readAt : Rank → List Token → Answer Expr
  | .assignment, ts => (ofTokens ts).answer
  | .disjunction, ts => (ofLevel .disjunction ts).answer
  | .conjunction, ts => (ofLevel .conjunction ts).answer
  | .predicate, ts => (ofLevel .predicate ts).answer
  | .additive, ts => (ofLevel .additive ts).answer
  | .multiplicative, ts => (ofLevel .multiplicative ts).answer
  | .unary, ts => (ofUnary ts).answer
  | .suffix, ts => (ofIndexed ts).answer
  | .operand, ts => (ofOperand ts).answer

/-- Reading goes on behind an expression of the next tighter level. -/
def goOn : Rank → Expr → List Token → Answer Expr
  | .assignment, e, ts => (ofAssigned e ts).answer
  | .disjunction, e, ts => (ofLevelRest .disjunction e ts).answer
  | .conjunction, e, ts => (ofLevelRest .conjunction e ts).answer
  | .predicate, e, ts => (ofLevelRest .predicate e ts).answer
  | .additive, e, ts => (ofLevelRest .additive e ts).answer
  | .multiplicative, e, ts => (ofLevelRest .multiplicative e ts).answer
  | .suffix, e, ts => (ofIndices e ts).answer
  | .unary, e, ts | .operand, e, ts => .ok e ts

theorem readAt_toRank (l : Level) (ts : List Token) :
    readAt l.toRank ts = (ofLevel l ts).answer := by
  cases l with
  | unary => rw [ofLevel_unary]; rfl
  | _ => rfl

theorem goOn_toRank {l : Level} (hl : l ≠ .unary) (e : Expr) (ts : List Token) :
    goOn l.toRank e ts = (ofLevelRest l e ts).answer := by
  cases l with
  | unary => exact absurd rfl hl
  | _ => rfl

theorem exists_level {r : Rank} (h : (op, o) ∈ r.operations) :
    ∃ l : Level, l ≠ .unary ∧ l.toRank = r ∧ l.operation? op = some o := by
  cases r using Rank.cases_level with
  | level l hl => exact ⟨l, hl, rfl, Level.operation?_eq_some.2 h⟩
  | assignment | unary | suffix | operand => cases h

theorem ofAssigned_of_stops (h : Stops .assignment ts) :
    (ofAssigned e ts).answer = .ok e ts := by
  fun_cases ofAssigned e ts
  · case case1 op l right base ho =>
    have hm := List.mem_map_of_mem (f := Prod.fst) (assignment?_eq_some.1 ho)
    exact absurd hm (h op l right .assignment rfl (Nat.le_refl _))
  · case case2 ho => simp only [ofAssigned, ho, answer_found]
  · case case3 hne => rw [ofAssigned, answer_found]; exact hne

theorem ofLevelRest_of_stops {l : Level} (h : Stops l.toRank ts) :
    (ofLevelRest l e ts).answer = .ok e ts := by
  fun_cases ofLevelRest l e ts
  · case case1 op loc right o ho =>
    have hm := Rank.mem_continuing (Level.operation?_eq_some.1 ho)
    exact absurd hm (h op loc right l.toRank rfl (Nat.le_refl _))
  · case case2 ho => simp only [ofLevelRest, ho, answer_found]
  · case case3 hne => rw [ofLevelRest, answer_found]; exact hne

theorem goOn_of_stops (h : Stops r ts) : goOn r e ts = .ok e ts := by
  cases r using Rank.cases_level with
  | assignment => exact ofAssigned_of_stops h
  | level l hl => exact (goOn_toRank hl e ts).trans (ofLevelRest_of_stops h)
  | suffix =>
    show (ofIndices e ts).answer = _
    fun_cases ofIndices e ts
    · case case1 l inside =>
      exact absurd (List.mem_singleton.2 rfl) (h _ _ _ .suffix rfl (Nat.le_refl _))
    · case case2 hne => rw [ofIndices, answer_found]; exact hne
  | unary | operand => rfl

/-- The tokens with which an expression of the level begins. -/
inductive Opens : Rank → TokenKind → Prop
  | boolean : Opens r (.boolean b)
  | number : Opens r (.number x)
  | string : Opens r (.string s)
  | identifier : Opens r (.identifier name)
  | paren : Opens r (.operator .openParen)
  | list : Opens r (.operator .openSquare)
  | sign (ho : (op, o) ∈ signs) (hr : r.depth ≤ Rank.unary.depth) : Opens r (.operator op)

theorem Opens.looser {kind : TokenKind} (h : Opens r kind) (hr : r'.depth ≤ r.depth) :
    Opens r' kind := by
  cases h with
  | sign ho hu => exact .sign ho (Nat.le_trans hr hu)
  | boolean => exact .boolean
  | number => exact .number
  | string => exact .string
  | identifier => exact .identifier
  | paren => exact .paren
  | list => exact .list

theorem Rank.depth_le_tighter (r : Rank) : r.depth ≤ r.tighter.depth := by
  cases r <;> decide

theorem Rank.tighter_le_guard (r : Rank) : r.guard.depth ≤ r.tighter.depth := by
  cases r <;> decide

theorem Rank.guard_le (r : Rank) : r.depth ≤ r.guard.depth := by
  cases r <;> decide

theorem Derives.opens (h : Derives r w e) : ∃ t v, w = t :: v ∧ Opens r t.kind := by
  match h with
  | .tighter hr h =>
    obtain ⟨t, v, rfl, ho⟩ := h.opens
    exact ⟨t, v, rfl, ho.looser r.depth_le_tighter⟩
  | .assign ho hl hr =>
    obtain ⟨t, v, rfl, ho⟩ := hl.opens
    exact ⟨t, _, rfl, ho.looser (Nat.zero_le _)⟩
  | .operation ho hl hr =>
    obtain ⟨t, v, rfl, ho⟩ := hl.opens
    exact ⟨t, _, rfl, ho⟩
  | .index hl hi =>
    obtain ⟨t, v, rfl, ho⟩ := hl.opens
    exact ⟨t, _, rfl, ho⟩
  | .sign ho h => exact ⟨_, _, rfl, .sign ho (Nat.le_refl _)⟩
  | .boolean => exact ⟨_, _, rfl, .boolean⟩
  | .number => exact ⟨_, _, rfl, .number⟩
  | .string => exact ⟨_, _, rfl, .string⟩
  | .identifier => exact ⟨_, _, rfl, .identifier⟩
  | .call h => exact ⟨_, _, rfl, .identifier⟩
  | .paren h => exact ⟨_, _, rfl, .paren⟩
  | .list h => exact ⟨_, _, rfl, .list⟩

theorem readAt_toRank_of_tighter {l : Level} (hl : l ≠ .unary)
    (hi : readAt l.toRank.tighter ts = .ok e rest) : readAt l.toRank ts = goOn l.toRank e rest := by
  rw [← Level.toRank_tighter hl, readAt_toRank] at hi
  rw [readAt_toRank, ofLevel_answer hl, hi, goOn_toRank hl, Answer.ok_andThen]

theorem ofUnary_of_suffix (h : Derives .suffix w e) (rest : List Token) :
    ofUnary (w ++ rest) = ofIndexed (w ++ rest) := by
  obtain ⟨t, v, rfl, ho⟩ := h.opens
  generalize hts : t :: v ++ rest = ts
  fun_cases ofUnary ts
  · case case1 op l right o hop =>
    cases hts
    cases ho with
    | sign _ hr => exact absurd hr (by decide)
    | paren => cases hop
    | list => cases hop
  · case case2 hop => simp only [ofUnary, hop]
  · case case3 hne => rw [ofUnary]; exact hne

/-- Behind an expression of the next tighter level, reading goes on. -/
theorem readAt_of_tighter (hr : r ≠ .operand) (h : Derives r.tighter w e)
    (hi : readAt r.tighter (w ++ rest) = .ok e rest) : readAt r (w ++ rest) = goOn r e rest := by
  cases r using Rank.cases_level with
  | operand => exact absurd rfl hr
  | assignment =>
    show (ofTokens (w ++ rest)).answer = _
    rw [ofTokens, answer_andThen]
    exact congrArg (Answer.andThen · _) hi
  | level l hl => exact readAt_toRank_of_tighter hl hi
  | unary => exact (congrArg Reply.answer (ofUnary_of_suffix h rest)).trans hi
  | suffix =>
    show (ofIndexed (w ++ rest)).answer = _
    rw [ofIndexed, answer_andThen]
    exact congrArg (Answer.andThen · _) hi

theorem listOfTokens_of_opens {close : Operator} (h : Separated w es)
    (hc : close = .closeParen ∨ close = .closeSquare) (what : Expectation) (rest : List Token) :
    listOfTokens close what (w ++ rest) = nonemptyOfTokens close what (w ++ rest) := by
  have ho : ∃ t v, w = t :: v ∧ Opens .assignment t.kind := by
    cases h with
    | one h => exact h.opens
    | more h hs =>
      obtain ⟨t, v, rfl, ho⟩ := h.opens
      exact ⟨t, _, rfl, ho⟩
  obtain ⟨t, v, rfl, ho⟩ := ho
  generalize hts : t :: v ++ rest = ts
  fun_cases listOfTokens close what ts
  · cases hts
    obtain rfl | rfl := hc
    · cases ho with
      | sign hm => exact absurd hm (by simp [signs])
    · cases ho with
      | sign hm => exact absurd hm (by simp [signs])
  · case case2 hne => simp only [listOfTokens, if_neg hne]
  · case case3 hne => rw [listOfTokens]; exact hne

theorem Stops.of_operation {r : Rank} (h : (op, o) ∈ r.operations) :
    Stops r.guard (⟨.operator op, l⟩ :: rest) := by
  refine .of_continuing (Rank.mem_continuing h) ?_
  cases r with
  | assignment => cases h
  | operand => cases h
  | _ => decide

theorem Stops.of_assignment (h : (op, base) ∈ assignments) :
    Stops .disjunction (⟨.operator op, l⟩ :: rest) :=
  .of_continuing (r := .assignment) (List.mem_map_of_mem (f := Prod.fst) h) (by decide)

/-! Each rule of the grammar, as a step of the reader. -/

theorem readAt_assign (ho : (op, base) ∈ assignments) (h : Derives .disjunction w lhs)
    (hl : readAt .disjunction (w ++ ⟨.operator op, l⟩ :: ts) =
      goOn .disjunction lhs (⟨.operator op, l⟩ :: ts))
    (hr : readAt .assignment ts = .ok rhs rest) :
    readAt .assignment (w ++ ⟨.operator op, l⟩ :: ts) =
      .ok (.binary lhs (.assign base) rhs) rest := by
  rw [goOn_of_stops (.of_assignment ho)] at hl
  rw [readAt_of_tighter (r := .assignment) (by decide) h hl]
  change (ofTokens ts).answer = _ at hr
  simp only [goOn, ofAssigned, assignment?_eq_some.2 ho, answer_loosen, answer_andThen, hr,
    Answer.ok_andThen, answer_found]

theorem goOn_operation {r : Rank} (ho : (op, o) ∈ r.operations)
    (hr : readAt r.tighter ts = .ok rhs rest) :
    goOn r lhs (⟨.operator op, l⟩ :: ts) = goOn r (.binary lhs (.operation o) rhs) rest := by
  obtain ⟨l, hne, rfl, ho'⟩ := exists_level ho
  rw [← Level.toRank_tighter hne, readAt_toRank] at hr
  rw [goOn_toRank hne, goOn_toRank hne]
  simp only [ofLevelRest, ho', answer_loosen, answer_andThen, hr, Answer.ok_andThen]

theorem goOn_index (hi : readAt .assignment ts = .ok i (⟨.operator .closeSquare, l₂⟩ :: rest)) :
    goOn .suffix lhs (⟨.operator .openSquare, l₁⟩ :: ts) =
      goOn .suffix (.binary lhs .index i) rest := by
  change (ofTokens ts).answer = _ at hi
  simp only [goOn, ofIndices, answer_loosen, answer_andThen, hi, Answer.ok_andThen, expect,
    if_true, answer_found]

theorem readAt_sign (ho : (op, o) ∈ signs) (h : readAt .unary ts = .ok e rest) :
    readAt .unary (⟨.operator op, l⟩ :: ts) = .ok (.unary o e) rest := by
  change (ofUnary ts).answer = _ at h
  simp only [readAt, ofUnary, unaryOp?_eq_some.2 ho, answer_loosen, answer_andThen, h,
    Answer.ok_andThen, answer_found]

theorem readAt_identifier (hs : Stops .operand rest) :
    readAt .operand (⟨.identifier name, l⟩ :: rest) = .ok (.identifier name) rest := by
  change (ofOperand _).answer = _
  rw [ofOperand, answer_found]
  rintro l inside rfl
  exact hs _ _ _ .operand rfl (by decide) (by decide)

theorem readAt_call
    (h : (listOfTokens .closeParen .commaOrCloseParen ts).answer = .ok args rest) :
    readAt .operand (⟨.identifier name, l₁⟩ :: ⟨.operator .openParen, l₂⟩ :: ts) =
      .ok (.call name args) rest := by
  simp only [readAt, ofOperand, answer_loosen, answer_andThen, h, Answer.ok_andThen, answer_found]

theorem readAt_paren (h : readAt .assignment ts = .ok e (⟨.operator .closeParen, l₂⟩ :: rest)) :
    readAt .operand (⟨.operator .openParen, l₁⟩ :: ts) = .ok e rest := by
  change (ofTokens ts).answer = _ at h
  simp only [readAt, ofOperand, answer_loosen, answer_andThen, h, Answer.ok_andThen, expect,
    if_true, answer_found]

theorem readAt_list
    (h : (listOfTokens .closeSquare .commaOrCloseSquare ts).answer = .ok es rest) :
    readAt .operand (⟨.operator .openSquare, l₁⟩ :: ts) = .ok (.list es) rest := by
  simp only [readAt, ofOperand, answer_loosen, answer_andThen, h, Answer.ok_andThen, answer_found]

theorem nonemptyOfTokens_one {close : Operator}
    (h : readAt .assignment ts = .ok e (⟨.operator close, l⟩ :: rest)) :
    (nonemptyOfTokens close what ts).answer = .ok [e] rest := by
  change (ofTokens ts).answer = _ at h
  simp only [nonemptyOfTokens, answer_loosen, answer_andThen, h, Answer.ok_andThen,
    listRestOfTokens, if_true, answer_found]

theorem nonemptyOfTokens_more {close : Operator} (hc : close ≠ .comma)
    (h : readAt .assignment ts = .ok e (⟨.operator .comma, l⟩ :: ts'))
    (hs : (nonemptyOfTokens close what ts').answer = .ok es rest) :
    (nonemptyOfTokens close what ts).answer = .ok (e :: es) rest := by
  change (ofTokens ts).answer = _ at h
  rw [nonemptyOfTokens]
  simp only [answer_loosen, answer_andThen, h, Answer.ok_andThen, listRestOfTokens,
    if_neg hc.symm, if_true, hs, answer_found]

mutual

/-- A derived expression is read as far as it goes, and then reading goes on. -/
theorem Derives.read (h : Derives r w e) (rest : List Token) (hs : Stops r.guard rest) :
    readAt r (w ++ rest) = goOn r e rest := by
  match h with
  | .tighter hr h =>
    have ht : Stops r.tighter rest := hs.mono r.tighter_le_guard
    have hi := h.read rest (ht.mono (Rank.guard_le r.tighter))
    exact readAt_of_tighter hr h (hi.trans (goOn_of_stops ht))
  | .assign ho hl hr =>
    -- The right side is of the same level, so nothing can be left to go on with.
    have hr' := (hr.read rest hs).trans (goOn_of_stops hs)
    rw [List.append_assoc, goOn_of_stops (r := .assignment) hs]
    exact readAt_assign ho hl (hl.read _ ((Stops.of_assignment ho).mono (Rank.guard_le _))) hr'
  | .operation ho hl hr =>
    -- The left side is of the same level and is gone on with; the right side is tighter.
    have ht := hs.mono r.tighter_le_guard
    have hr' := (hr.read rest (ht.mono (Rank.guard_le r.tighter))).trans (goOn_of_stops ht)
    rw [List.append_assoc, List.cons_append, hl.read _ (.of_operation ho), goOn_operation ho hr']
  | .index hl hi =>
    rw [List.append_assoc, List.cons_append, List.append_assoc,
      hl.read _ (.of_continuing (r := .suffix) (by decide) (by decide))]
    exact goOn_index ((hi.read _ (.of_ends rfl _)).trans (goOn_of_stops (.of_ends rfl _)))
  | .sign ho h =>
    rw [List.cons_append, readAt_sign ho (h.read rest hs)]
    rfl
  | .boolean => rw [readAt, goOn, List.cons_append, ofOperand, answer_found]; rfl
  | .number => rw [readAt, goOn, List.cons_append, ofOperand, answer_found]; rfl
  | .string => rw [readAt, goOn, List.cons_append, ofOperand, answer_found]; rfl
  | .identifier => exact readAt_identifier hs
  | .call h =>
    rw [List.cons_append, List.cons_append, List.append_assoc]
    exact readAt_call (h.read (.inl rfl) _ _ rest)
  | .paren h =>
    rw [List.cons_append, List.append_assoc]
    exact readAt_paren ((h.read _ (.of_ends rfl _)).trans (goOn_of_stops (.of_ends rfl _)))
  | .list h =>
    rw [List.cons_append, List.append_assoc]
    exact readAt_list (h.read (.inr rfl) _ _ rest)

theorem Elements.read (h : Elements w es) (hc : close = .closeParen ∨ close = .closeSquare)
    (what : Expectation) (l : Location) (rest : List Token) :
    (listOfTokens close what (w ++ ⟨.operator close, l⟩ :: rest)).answer = .ok es rest := by
  match h with
  | .none => simp only [List.nil_append, listOfTokens, if_true, answer_found]
  | .some h =>
    rw [listOfTokens_of_opens h hc]
    exact h.read hc what l rest

theorem Separated.read (h : Separated w es) (hc : close = .closeParen ∨ close = .closeSquare)
    (what : Expectation) (l : Location) (rest : List Token) :
    (nonemptyOfTokens close what (w ++ ⟨.operator close, l⟩ :: rest)).answer = .ok es rest := by
  have hs : (TokenKind.operator close).endsExpr := by
    obtain rfl | rfl := hc <;> rfl
  match h with
  | .one h =>
    exact nonemptyOfTokens_one ((h.read _ (.of_ends hs _)).trans (goOn_of_stops (.of_ends hs _)))
  | .more h hs =>
    have hne : close ≠ .comma := by
      obtain rfl | rfl := hc <;> nofun
    rw [List.append_assoc, List.cons_append]
    exact nonemptyOfTokens_more hne
      ((h.read _ (.of_ends rfl _)).trans (goOn_of_stops (.of_ends rfl _))) (hs.read hc what l rest)

end

/-- In front of a token that ends an expression, a derived one is read. -/
theorem ofTokens_derived (h : Derives .assignment w e) {t : Token} (ht : t.kind.endsExpr)
    (rest : List Token) : (ofTokens (w ++ t :: rest)).answer = .ok e (t :: rest) :=
  (h.read _ (.of_ends ht _)).trans (goOn_of_stops (.of_ends ht _))

/-- What is read as an expression is one. -/
theorem derived_of_answer {rest : List Token} (h : (ofTokens (w ++ rest)).answer = .ok e rest) :
    Derives .assignment w e := by
  have hr : Reads (fun _ _ => False) (fun _ _ => True) (fun ts => (ofTokens ts).answer)
    (Derives .assignment) (w ++ rest) := ofTokens_reads _
  obtain ⟨w', hw, hd, -⟩ := hr.ok e rest h
  rwa [List.append_cancel_right hw]

/-- In front of a token that ends an expression, the reader stops with all the tokens read, and with
a tree, if and only if they are an expression with that tree. The reader takes any tokens. A parser
is only made for tokens up to the end of a program, and keeps its place among them; for these
`Parser.Before.returns_iff_derived` says the same of it. -/
theorem is_read_iff_derived {t : Token} (ht : t.kind.endsExpr) (w : List Token) (e : Expr)
    (rest : List Token) :
    (ofTokens (w ++ t :: rest)).answer = .ok e (t :: rest) ↔ Derives .assignment w e :=
  ⟨derived_of_answer, fun h => ofTokens_derived h ht rest⟩

/-- An assignment of a difference of a difference: the tree is that of the grammar. -/
theorem is_read_iff_derived_in_assignment :
    TokenKind.lineFeed.endsExpr ∧
      (ofTokens ([⟨.identifier "x", ⟨1, 1⟩⟩, ⟨.operator .equals, ⟨1, 3⟩⟩,
        ⟨.identifier "a", ⟨1, 5⟩⟩, ⟨.operator .minus, ⟨1, 7⟩⟩, ⟨.identifier "b", ⟨1, 9⟩⟩,
        ⟨.operator .minus, ⟨1, 11⟩⟩, ⟨.identifier "c", ⟨1, 13⟩⟩] ++
          [⟨.lineFeed, ⟨1, 14⟩⟩])).answer =
      .ok (.binary (.identifier "x") (.assign none)
        (.binary (.binary (.identifier "a") (.operation .subtract) (.identifier "b"))
          (.operation .subtract) (.identifier "c"))) [⟨.lineFeed, ⟨1, 14⟩⟩] := by
  refine ⟨rfl, (is_read_iff_derived rfl _ _ _).2 ?_⟩
  have name {x l} (r : Rank) : Derives r [⟨.identifier x, l⟩] (.identifier x) :=
    Derives.identifier.looser r.depth_le
  have difference {x y z l₁ l₂ l₃ l₄ l₅} : Derives .additive
      [⟨.identifier x, l₁⟩, ⟨.operator .minus, l₂⟩, ⟨.identifier y, l₃⟩, ⟨.operator .minus, l₄⟩,
        ⟨.identifier z, l₅⟩]
      (.binary (.binary (.identifier x) (.operation .subtract) (.identifier y))
        (.operation .subtract) (.identifier z)) :=
    .operation (by decide) (.operation (by decide) (name _) (name _)) (name _)
  exact .assign (by decide) (name _) (difference.looser (by decide))

end Expr

end Offside
