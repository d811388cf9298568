import Offside.Proofs.Syntax.BlockReads
import Offside.Proofs.Syntax.ExprRenumbering

/-!
Programs are read from tokens whatever the numbers of their lines are. The numbers come back in the
locations of statements and faults.
-/

namespace Offside

open Token
open Reply (answer_andThen answer_loosen answer_found)

mutual

def Stmt.renumber (g : Nat → Nat) : Stmt → Stmt
  | .declare loc name ty initializer => .declare (loc.renumber g) name ty initializer
  | .define loc name params returns body =>
    .define (loc.renumber g) name params returns (Block.renumber g body)
  | .expr loc e => .expr (loc.renumber g) e
  | .return loc value => .return (loc.renumber g) value
  | .print loc e => .print (loc.renumber g) e
  | .read loc target => .read (loc.renumber g) target
  | .cond loc condition thenBlock elseBlock =>
    .cond (loc.renumber g) condition (Block.renumber g thenBlock)
      (match elseBlock with
        | none => none
        | some block => some (Block.renumber g block))
  | .while loc condition body => .while (loc.renumber g) condition (Block.renumber g body)
  | .for loc name range body => .for (loc.renumber g) name range (Block.renumber g body)

def Block.renumber (g : Nat → Nat) : Block → Block
  | [] => []
  | stmt :: stmts => stmt.renumber g :: Block.renumber g stmts

end

variable {g : Nat → Nat}

theorem Stmt.renumber_cond (loc : Location) (condition : Expr) (thenBlock : Block)
    (elseBlock : Option Block) :
    (cond loc condition thenBlock elseBlock).renumber g =
      .cond (loc.renumber g) condition (Block.renumber g thenBlock)
        (elseBlock.map (Block.renumber g)) := by
  cases elseBlock <;> rfl

theorem Stmt.loc_renumber (stmt : Stmt) : (stmt.renumber g).loc = stmt.loc.renumber g := by
  cases stmt <;> rfl

theorem Ty.ofTokens_renumber (hg : g 0 = 0) (ts : List Token) :
    (Ty.ofTokens (ts.map (renumber g))).answer = (Ty.ofTokens ts).answer.renumber g id := by
  generalize ht : ts = given
  fun_cases Ty.ofTokens given
  · case case1 loc rest =>
    rw [map_renumber_cons, Ty.ofTokens, Ty.ofTokens]
    rfl
  · case case2 loc rest =>
    rw [map_renumber_cons, Ty.ofTokens, Ty.ofTokens]
    rfl
  · case case3 loc rest =>
    rw [map_renumber_cons, Ty.ofTokens, Ty.ofTokens]
    rfl
  · case case4 loc rest =>
    rw [map_renumber_cons, Ty.ofTokens, Ty.ofTokens]
    simp only [answer_loosen, answer_andThen, answer_found]
    refine Answer.andThen_renumber (expect_renumber hg _ _ rest) fun _ rest hr => ?_
    have := Reply.shorter hr
    refine Answer.andThen_renumber (Ty.ofTokens_renumber hg rest) fun element rest _ => ?_
    exact Answer.andThen_renumber (expect_renumber hg _ _ rest) fun _ rest _ => rfl
  · rw [Ty.ofTokens, Ty.ofTokens]
    · exact missing_renumber hg id .typeName given
    all_goals grind
termination_by ts.length
decreasing_by grind

namespace Stmt

theorem lastExpr_renumber (hg : g 0 = 0) (ts : List Token) :
    (lastExpr (ts.map (Token.renumber g))).answer = (lastExpr ts).answer.renumber g id := by
  simp only [lastExpr, answer_loosen, answer_andThen, answer_found]
  refine Answer.andThen_renumber (Expr.ofTokens_renumber hg ts) fun e rest _ => ?_
  exact Answer.andThen_renumber (expectLineEnd_renumber hg _ rest) fun _ rest _ => rfl

theorem operand_renumber (hg : g 0 = 0) (ts : List Token) :
    (operand (ts.map (Token.renumber g))).answer = (operand ts).answer.renumber g id := by
  fun_cases operand ts
  · case case1 loc rest => exact missing_renumber hg id .expression (⟨.lineFeed, loc⟩ :: rest)
  · rw [operand, operand]
    · exact lastExpr_renumber hg ts
    · grind
    · grind

theorem initializer_renumber (hg : g 0 = 0) (ts : List Token) :
    (initializer (ts.map (Token.renumber g))).answer = (initializer ts).answer.renumber g id := by
  fun_cases initializer ts
  · case case1 loc rest =>
    rw [map_renumber_cons]
    simp only [initializer, answer_loosen, answer_andThen, answer_found]
    exact Answer.andThen_renumber (lastExpr_renumber hg rest) fun e rest _ => rfl
  · rw [initializer, initializer, answer_andThen, answer_andThen]
    · exact Answer.andThen_renumber (expectLineEnd_renumber hg _ ts) fun _ rest _ => rfl
    · grind
    · grind

theorem declaration_renumber (hg : g 0 = 0) (loc : Location) (name : String) (ts : List Token) :
    (declaration (loc.renumber g) name (ts.map (Token.renumber g))).answer =
      (declaration loc name ts).answer.renumber g (Stmt.renumber g) := by
  fun_cases declaration loc name ts
  · case case1 at_ rest =>
    rw [map_renumber_cons]
    simp only [declaration, answer_loosen, answer_andThen, answer_found]
    exact Answer.andThen_renumber (lastExpr_renumber hg rest) fun e rest _ => rfl
  · rw [declaration, declaration]
    · simp only [answer_loosen, answer_andThen, answer_found]
      refine Answer.andThen_renumber (Ty.ofTokens_renumber hg ts) fun ty rest _ => ?_
      exact Answer.andThen_renumber (initializer_renumber hg rest) fun value rest _ => rfl
    · grind
    · grind

mutual

theorem paramsAfter_renumber (hg : g 0 = 0) (taken : List String) (ts : List Token) :
    (paramsAfter taken (ts.map (Token.renumber g))).answer =
      (paramsAfter taken ts).answer.renumber g id := by
  simp only [paramsAfter, answer_loosen, answer_andThen]
  refine Answer.andThen_renumber (expectName_renumber hg _ ts) fun name rest hr => ?_
  have := Reply.shorter hr
  refine Answer.andThen_renumber (expect_renumber hg _ _ rest) fun _ rest hr => ?_
  have := Reply.shorter hr
  refine Answer.andThen_renumber (Ty.ofTokens_renumber hg rest) fun ty rest hr => ?_
  have := Reply.shorter hr
  by_cases hn : name ∈ taken
  · rw [id_eq, if_pos hn, if_pos hn, here_renumber hg]
    rfl
  · rw [id_eq, if_neg hn, if_neg hn, answer_loosen, answer_loosen]
    exact paramsRest_renumber hg (name :: taken) ⟨name, ty⟩ rest
termination_by 4 * ts.length + 1
decreasing_by all_goals grind

theorem paramsRest_renumber (hg : g 0 = 0) (taken : List String) (p : Param) (ts : List Token) :
    (paramsRest taken p (ts.map (Token.renumber g))).answer =
      (paramsRest taken p ts).answer.renumber g id := by
  generalize ht : ts = given
  fun_cases paramsRest taken p given
  · case case1 loc rest =>
    rw [map_renumber_cons, paramsRest, paramsRest]
    rfl
  · case case2 loc rest =>
    rw [map_renumber_cons]
    simp only [paramsRest, answer_loosen, answer_andThen, answer_found]
    exact Answer.andThen_renumber (paramsAfter_renumber hg taken rest) fun ps rest _ => rfl
  · rw [paramsRest, paramsRest]
    · exact missing_renumber hg id .commaOrCloseParen given
    all_goals grind
termination_by 4 * ts.length
decreasing_by all_goals grind

end

theorem params_renumber (hg : g 0 = 0) (ts : List Token) :
    (params (ts.map (Token.renumber g))).answer = (params ts).answer.renumber g id := by
  fun_cases params ts
  · rfl
  · rw [params, params]
    · exact paramsAfter_renumber hg [] ts
    all_goals grind

theorem returns_renumber (hg : g 0 = 0) (ts : List Token) :
    (returns (ts.map (Token.renumber g))).answer = (returns ts).answer.renumber g id := by
  fun_cases returns ts
  · case case1 loc rest =>
    rw [map_renumber_cons]
    simp only [returns, answer_loosen, answer_andThen, answer_found]
    refine Answer.andThen_renumber (Ty.ofTokens_renumber hg rest) fun ty rest _ => ?_
    exact Answer.andThen_renumber (expectLineEnd_renumber hg _ rest) fun _ rest _ => rfl
  · rw [returns, returns, answer_andThen, answer_andThen]
    · exact Answer.andThen_renumber (expectLineEnd_renumber hg _ ts) fun _ rest _ => rfl
    all_goals grind

theorem signature_renumber (hg : g 0 = 0) (ts : List Token) :
    (signature (ts.map (Token.renumber g))).answer = (signature ts).answer.renumber g id := by
  simp only [signature, answer_loosen, answer_andThen, answer_found]
  refine Answer.andThen_renumber (expectName_renumber hg _ ts) fun name rest _ => ?_
  refine Answer.andThen_renumber (expect_renumber hg _ _ rest) fun _ rest _ => ?_
  refine Answer.andThen_renumber (params_renumber hg rest) fun params rest _ => ?_
  exact Answer.andThen_renumber (returns_renumber hg rest) fun ty rest _ => rfl

theorem loopHeader_renumber (hg : g 0 = 0) (ts : List Token) :
    (loopHeader (ts.map (Token.renumber g))).answer = (loopHeader ts).answer.renumber g id := by
  simp only [loopHeader, answer_loosen, answer_andThen, answer_found]
  refine Answer.andThen_renumber (expectName_renumber hg _ ts) fun name rest _ => ?_
  refine Answer.andThen_renumber (expect_renumber hg _ _ rest) fun _ rest _ => ?_
  exact Answer.andThen_renumber (operand_renumber hg rest) fun range rest _ => rfl

end Stmt

mutual

theorem Block.ofTokens_renumber (hg : g 0 = 0) (ts : List Token) :
    (Block.ofTokens (ts.map (Token.renumber g))).answer =
      (Block.ofTokens ts).answer.renumber g (Block.renumber g) := by
  generalize ht : ts = given
  fun_cases Block.ofTokens given
  · case case1 base loc line =>
    have hfirst := Stmt.ofTokens_renumber hg base (⟨.indent base, loc⟩ :: line)
    rw [map_renumber_cons]
    simp only [Block.ofTokens, answer_andThen, answer_found]
    refine Answer.andThen_renumber hfirst fun stmt rest hr => ?_
    have := Reply.shorter hr
    exact Answer.andThen_renumber (Block.restOfTokens_renumber hg base rest)
      fun stmts rest _ => rfl
  · rw [Block.ofTokens, Block.ofTokens]
    · exact missing_renumber hg _ .indentation given
    all_goals grind
termination_by 4 * ts.length + 2
decreasing_by all_goals grind

theorem Block.restOfTokens_renumber (hg : g 0 = 0) (base : Nat) (ts : List Token) :
    (Block.restOfTokens base (ts.map (Token.renumber g))).answer =
      (Block.restOfTokens base ts).answer.renumber g (Block.renumber g) := by
  generalize ht : ts = given
  fun_cases Block.restOfTokens base given
  · case case1 width loc line hw =>
    rw [map_renumber_cons, Block.restOfTokens, Block.restOfTokens, if_pos hw, if_pos hw]
    exact stop_renumber hg _ .unexpectedIndentation (⟨.indent width, loc⟩ :: line)
  · case case2 width loc line hw hw' =>
    rw [map_renumber_cons, Block.restOfTokens, Block.restOfTokens, if_neg hw, if_neg hw,
      if_pos hw', if_pos hw']
    rfl
  · case case3 width loc line hw hw' =>
    have hfirst := Stmt.ofTokens_renumber hg base (⟨.indent width, loc⟩ :: line)
    rw [map_renumber_cons, Block.restOfTokens, Block.restOfTokens, if_neg hw, if_neg hw,
      if_neg hw', if_neg hw']
    simp only [answer_loosen, answer_andThen, answer_found]
    refine Answer.andThen_renumber hfirst fun stmt rest hr => ?_
    have := Reply.shorter hr
    exact Answer.andThen_renumber (Block.restOfTokens_renumber hg base rest)
      fun stmts rest _ => rfl
  · rw [Block.restOfTokens, Block.restOfTokens]
    · rfl
    all_goals grind
termination_by 4 * ts.length + 1
decreasing_by all_goals grind

theorem Block.nestedOfTokens_renumber (hg : g 0 = 0) (base : Nat) (what : Expectation)
    (ts : List Token) :
    (Block.nestedOfTokens base what (ts.map (Token.renumber g))).answer =
      (Block.nestedOfTokens base what ts).answer.renumber g (Block.renumber g) := by
  generalize ht : ts = given
  fun_cases Block.nestedOfTokens base what given
  · case case1 width loc line hw =>
    have h := Block.ofTokens_renumber hg (⟨.indent width, loc⟩ :: line)
    rw [map_renumber_cons, Block.nestedOfTokens, Block.nestedOfTokens, if_pos hw, if_pos hw]
    exact h
  · case case2 width loc line hw =>
    rw [map_renumber_cons, Block.nestedOfTokens, Block.nestedOfTokens, if_neg hw, if_neg hw]
    exact missing_renumber hg _ what (⟨.indent width, loc⟩ :: line)
  · rw [Block.nestedOfTokens, Block.nestedOfTokens]
    · exact missing_renumber hg _ what given
    all_goals grind
termination_by 4 * ts.length + 3
decreasing_by all_goals grind

theorem Block.elseOfTokens_renumber (hg : g 0 = 0) (base : Nat) (ts : List Token) :
    (Block.elseOfTokens base (ts.map (Token.renumber g))).answer =
      (Block.elseOfTokens base ts).answer.renumber g (Option.map (Block.renumber g)) := by
  generalize ht : ts = given
  fun_cases Block.elseOfTokens base given
  · case case1 widthLoc elseLoc behind =>
    rw [map_renumber_cons, map_renumber_cons, Block.elseOfTokens, Block.elseOfTokens,
      if_pos rfl, if_pos rfl]
    simp only [answer_loosen, answer_andThen, answer_found]
    refine Answer.andThen_renumber (expectLineEnd_renumber hg _ behind) fun _ rest hr => ?_
    have := Reply.shorter hr
    exact Answer.andThen_renumber (Block.nestedOfTokens_renumber hg base _ rest)
      fun block rest _ => rfl
  · case case2 width widthLoc elseLoc behind hw =>
    rw [map_renumber_cons, map_renumber_cons, Block.elseOfTokens, Block.elseOfTokens,
      if_neg hw, if_neg hw]
    rfl
  · case case3 hne =>
    rw [Block.elseOfTokens, Block.elseOfTokens]
    · rfl
    · exact hne
    · intro width l₁ l₂ behind h
      obtain ⟨l₁', l₂', behind', rfl⟩ := map_renumber_eq_cons_cons h
      exact hne _ _ _ _ rfl
termination_by 4 * ts.length
decreasing_by all_goals grind

theorem Stmt.ofTokens_renumber (hg : g 0 = 0) (base : Nat) (ts : List Token) :
    (Stmt.ofTokens base (ts.map (Token.renumber g))).answer =
      (Stmt.ofTokens base ts).answer.renumber g (Stmt.renumber g) := by
  match ht : ts with
  | [] =>
    rw [List.map_nil, Stmt.ofTokens]
    exact missing_renumber hg _ .indentation []
  | t :: line =>
    have h := Stmt.ofLine_renumber hg base (here line) line
    rw [← here_renumber hg] at h
    rw [List.map_cons, Stmt.ofTokens, Stmt.ofTokens, answer_loosen, answer_loosen]
    exact h
termination_by 4 * ts.length
decreasing_by all_goals grind

theorem Stmt.ofLine_renumber (hg : g 0 = 0) (base : Nat) (loc : Location) (ts : List Token) :
    (Stmt.ofLine base (loc.renumber g) (ts.map (Token.renumber g))).answer =
      (Stmt.ofLine base loc ts).answer.renumber g (Stmt.renumber g) := by
  generalize ht : ts = given
  fun_cases Stmt.ofLine base loc given
  · case case1 name nameLoc colonLoc rest =>
    rw [map_renumber_cons, map_renumber_cons, Stmt.ofLine, Stmt.ofLine]
    simp only [answer_loosen]
    exact Stmt.declaration_renumber hg loc name rest
  · case case2 at_ rest =>
    rw [map_renumber_cons, Stmt.ofLine_def, Stmt.ofLine_def]
    refine Answer.andThen_renumber (Stmt.signature_renumber hg rest) fun s rest hr => ?_
    have := Reply.shorter hr
    exact Answer.andThen_renumber (Block.nestedOfTokens_renumber hg base _ rest)
      fun body rest _ => rfl
  · case case3 at_ rest =>
    rw [map_renumber_cons, Stmt.ofLine_if, Stmt.ofLine_if]
    refine Answer.andThen_renumber (Stmt.operand_renumber hg rest) fun condition rest hr => ?_
    have := Reply.shorter hr
    refine Answer.andThen_renumber (Block.nestedOfTokens_renumber hg base _ rest)
      fun thenBlock rest hr => ?_
    have := Reply.shorter hr
    refine Answer.andThen_renumber (Block.elseOfTokens_renumber hg base rest)
      fun elseBlock rest _ => ?_
    rw [Answer.renumber, Stmt.renumber_cond]
    rfl
  · case case4 at_ rest =>
    rw [map_renumber_cons, Stmt.ofLine, Stmt.ofLine]
    exact stop_renumber hg _ .unexpectedElse (⟨.keyword .elseWord, at_⟩ :: rest)
  · case case5 at_ rest =>
    rw [map_renumber_cons, Stmt.ofLine_while, Stmt.ofLine_while]
    refine Answer.andThen_renumber (Stmt.operand_renumber hg rest) fun condition rest hr => ?_
    have := Reply.shorter hr
    exact Answer.andThen_renumber (Block.nestedOfTokens_renumber hg base _ rest)
      fun body rest _ => rfl
  · case case6 at_ rest =>
    rw [map_renumber_cons, Stmt.ofLine_for, Stmt.ofLine_for]
    refine Answer.andThen_renumber (Stmt.loopHeader_renumber hg rest) fun s rest hr => ?_
    have := Reply.shorter hr
    exact Answer.andThen_renumber (Block.nestedOfTokens_renumber hg base _ rest)
      fun body rest _ => rfl
  · case case7 at_ endLoc rest =>
    rw [map_renumber_cons, map_renumber_cons, Stmt.ofLine, Stmt.ofLine]
    rfl
  · case case8 at_ rest hne =>
    rw [map_renumber_cons, Stmt.ofLine, Stmt.ofLine]
    · simp only [answer_loosen, answer_andThen, answer_found]
      exact Answer.andThen_renumber (Stmt.operand_renumber hg rest) fun e rest _ => rfl
    · exact hne
    · grind
  · case case9 at_ rest =>
    rw [map_renumber_cons, Stmt.ofLine, Stmt.ofLine]
    simp only [answer_loosen, answer_andThen, answer_found]
    exact Answer.andThen_renumber (Stmt.operand_renumber hg rest) fun e rest _ => rfl
  · case case10 at_ rest =>
    rw [map_renumber_cons, Stmt.ofLine, Stmt.ofLine]
    simp only [answer_loosen, answer_andThen, answer_found]
    exact Answer.andThen_renumber (Stmt.operand_renumber hg rest) fun e rest _ => rfl
  · rw [Stmt.ofLine, Stmt.ofLine]
    · simp only [answer_andThen, answer_found]
      exact Answer.andThen_renumber (Stmt.lastExpr_renumber hg given) fun e rest _ => rfl
    all_goals grind [map_renumber_eq_cons_cons]
termination_by 4 * ts.length
decreasing_by all_goals grind

end

namespace Block

theorem outermostOfTokens_renumber (hg : g 0 = 0) (ts : List Token) :
    (outermostOfTokens (ts.map (Token.renumber g))).answer =
      (outermostOfTokens ts).answer.renumber g (Block.renumber g) := by
  fun_cases outermostOfTokens ts
  · case case1 width loc line =>
    have h := ofTokens_renumber hg (⟨.indent width, loc⟩ :: line)
    rw [map_renumber_cons, outermostOfTokens, outermostOfTokens, answer_loosen, answer_loosen]
    exact h
  · rw [outermostOfTokens, outermostOfTokens]
    · rfl
    all_goals grind

theorem endOfTokens_renumber (hg : g 0 = 0) (program : Block) (ts : List Token) :
    endOfTokens (Block.renumber g program) (ts.map (Token.renumber g)) =
      (endOfTokens program ts).renumber g (Block.renumber g) := by
  fun_cases endOfTokens program ts
  · rfl
  · rw [endOfTokens, here_renumber hg]
    · rfl
    · grind

theorem programOfTokens_renumber (hg : g 0 = 0) (ts : List Token) :
    (programOfTokens (ts.map (Token.renumber g))).answer =
      (programOfTokens ts).answer.renumber g (Block.renumber g) := by
  rw [programOfTokens_answer, programOfTokens_answer]
  exact Answer.andThen_renumber (outermostOfTokens_renumber hg ts) fun program rest _ =>
    endOfTokens_renumber hg program rest

end Block

end Offside
