import Offside.Program

/-!
The types in declarations. A type that is written in a program is one of which values exist; so a
variable that is declared without an initial value has one to start with.
-/

namespace Offside

mutual

/-- Variables that are declared without an initial value have types with values. -/
def Stmt.Concrete : Stmt → Prop
  | .declare _ _ (some ty) none => ty.isConcrete
  | .declare .. | .expr .. | .return .. | .print .. | .read .. => True
  | .define _ _ _ _ body | .while _ _ body | .for _ _ _ body => Stmt.AllConcrete body
  | .cond _ _ thenBlock none => Stmt.AllConcrete thenBlock
  | .cond _ _ thenBlock (some elseBlock) =>
    Stmt.AllConcrete thenBlock ∧ Stmt.AllConcrete elseBlock

def Stmt.AllConcrete : List Stmt → Prop
  | [] => True
  | stmt :: stmts => stmt.Concrete ∧ Stmt.AllConcrete stmts

end

namespace Reply

variable {α β : Type} {n : Nat} {P : α → Prop} {Q : β → Prop}

/-- What is read, if it can be read, has the property. -/
def All (P : α → Prop) : Reply α n → Prop
  | .ok a _ _ => P a
  | .error _ _ => True

namespace All

theorem found {a : α} {rest : List Token} (h : P a) : (Reply.found a rest).All P :=
  h

theorem loosen {r : Reply α n} (h : r.All P) : r.loosen.All P := by
  cases r with
  | ok a rest shorter => exact h
  | error fault rest => trivial

theorem andThen {r : Reply α n}
    {next : (a : α) → (rest : List Token) → rest.length < n → Reply β (rest.length + 1)}
    (h : ∀ a rest shorter, r = .ok a rest shorter → (next a rest shorter).All Q) :
    (r.andThen next).All Q := by
  cases r with
  | ok a rest shorter =>
    have hn := h a rest shorter rfl
    simp only [Reply.andThen]
    cases hr : next a rest shorter with
    | ok b rest' shorter' =>
      rw [hr] at hn
      exact hn
    | error fault rest' => trivial
  | error fault rest => trivial

theorem of_ok {r : Reply α n} (h : r.All P) {a : α} {rest : List Token}
    {shorter : rest.length < n} (hr : r = .ok a rest shorter) : P a := by
  subst hr
  exact h

end All

end Reply

theorem Ty.ofTokens_concrete (ts : List Token) :
    (Ty.ofTokens ts).All fun ty => ty.isConcrete := by
  unfold Ty.ofTokens
  split
  · exact .found rfl
  · exact .found rfl
  · exact .found rfl
  · case h_4 rest =>
    refine .loosen (.andThen fun _ rest' shorter _ => .loosen (.andThen fun ty rest'' _ hty => ?_))
    have hc := (Ty.ofTokens_concrete rest').of_ok hty
    exact .loosen (.andThen fun _ _ _ _ => .found hc)
  · trivial
termination_by ts.length
decreasing_by
  simp_all only [List.length_cons]
  omega

namespace Stmt

theorem declaration_concrete (loc : Location) (name : String) (ts : List Token) :
    (declaration loc name ts).All Stmt.Concrete := by
  unfold declaration
  split
  · exact .loosen (.andThen fun e _ _ _ => .found trivial)
  · refine .andThen fun ty rest _ hty => .loosen (.andThen fun value _ _ _ => .found ?_)
    cases value with
    | none => exact (Ty.ofTokens_concrete ts).of_ok hty
    | some e => trivial

end Stmt

mutual

theorem Block.ofTokens_concrete (ts : List Token) : (Block.ofTokens ts).All Stmt.AllConcrete := by
  unfold Block.ofTokens
  split
  · case h_1 base loc line =>
    refine .andThen fun stmt rest shorter hs => .andThen fun stmts rest' _ hss => .found ⟨?_, ?_⟩
    · exact (Stmt.ofTokens_concrete base _).of_ok hs
    · exact (Block.restOfTokens_concrete base rest).of_ok hss
  · trivial
termination_by 4 * ts.length + 2
decreasing_by all_goals grind

theorem Block.restOfTokens_concrete (base : Nat) (ts : List Token) :
    (Block.restOfTokens base ts).All Stmt.AllConcrete := by
  unfold Block.restOfTokens
  split
  · case h_1 width loc line =>
    split
    · trivial
    · split
      · exact .found trivial
      · refine .loosen (.andThen fun stmt rest shorter hs =>
          .andThen fun stmts rest' _ hss => .found ⟨?_, ?_⟩)
        · exact (Stmt.ofTokens_concrete base _).of_ok hs
        · exact (Block.restOfTokens_concrete base rest).of_ok hss
  · exact .found trivial
termination_by 4 * ts.length + 1
decreasing_by all_goals grind

theorem Block.nestedOfTokens_concrete (base : Nat) (what : Expectation) (ts : List Token) :
    (Block.nestedOfTokens base what ts).All Stmt.AllConcrete := by
  unfold Block.nestedOfTokens
  split
  · split
    · exact Block.ofTokens_concrete _
    · trivial
  · trivial
termination_by 4 * ts.length + 3
decreasing_by all_goals grind

theorem Block.elseOfTokens_concrete (base : Nat) (ts : List Token) :
    (Block.elseOfTokens base ts).All fun block =>
      ∀ stmts, block = some stmts → Stmt.AllConcrete stmts := by
  unfold Block.elseOfTokens
  split
  · split
    · refine .loosen (.loosen (.loosen (.andThen fun _ rest _ _ =>
        .loosen (.andThen fun block _ _ hb => .found fun stmts hs => ?_))))
      cases hs
      exact (Block.nestedOfTokens_concrete base _ rest).of_ok hb
    · exact .found nofun
  · exact .found nofun
termination_by 4 * ts.length
decreasing_by all_goals grind

theorem Stmt.ofTokens_concrete (base : Nat) (ts : List Token) :
    (Stmt.ofTokens base ts).All Stmt.Concrete := by
  unfold Stmt.ofTokens
  split
  · exact .loosen (Stmt.ofLine_concrete base _ _)
  · trivial
termination_by 4 * ts.length
decreasing_by all_goals grind

theorem Stmt.ofLine_concrete (base : Nat) (loc : Location) (ts : List Token) :
    (Stmt.ofLine base loc ts).All Stmt.Concrete := by
  unfold Stmt.ofLine
  split
  · exact .loosen (.loosen (Stmt.declaration_concrete _ _ _))
  · refine .loosen (.andThen fun header rest _ _ =>
      .loosen (.andThen fun body _ _ hb => .found ?_))
    exact (Block.nestedOfTokens_concrete base _ rest).of_ok hb
  · refine .loosen (.andThen fun condition rest _ _ =>
      .loosen (.andThen fun thenBlock rest' _ ht => .andThen fun elseBlock _ _ he => .found ?_))
    have ht' := (Block.nestedOfTokens_concrete base _ rest).of_ok ht
    have he' := (Block.elseOfTokens_concrete base rest').of_ok he
    cases elseBlock with
    | none => exact ht'
    | some block => exact ⟨ht', he' block rfl⟩
  · trivial
  · refine .loosen (.andThen fun condition rest _ _ =>
      .loosen (.andThen fun body _ _ hb => .found ?_))
    exact (Block.nestedOfTokens_concrete base _ rest).of_ok hb
  · refine .loosen (.andThen fun header rest _ _ =>
      .loosen (.andThen fun body _ _ hb => .found ?_))
    exact (Block.nestedOfTokens_concrete base _ rest).of_ok hb
  · exact .loosen (.found trivial)
  · exact .loosen (.andThen fun _ _ _ _ => .found trivial)
  · exact .loosen (.andThen fun _ _ _ _ => .found trivial)
  · exact .loosen (.andThen fun _ _ _ _ => .found trivial)
  · exact .andThen fun _ _ _ _ => .found trivial
termination_by 4 * ts.length
decreasing_by all_goals grind

end

theorem Block.programOfTokens_concrete (ts : List Token) :
    (Block.programOfTokens ts).All Stmt.AllConcrete := by
  unfold programOfTokens
  refine .andThen fun stmts rest _ hs => ?_
  have hc : Stmt.AllConcrete stmts := by
    refine Reply.All.of_ok ?_ hs
    unfold outermostOfTokens
    split
    · exact .loosen (Block.ofTokens_concrete _)
    · exact .found trivial
  split
  · exact .found hc
  · trivial

/-- In a program that could be read, every variable has a value to start with. -/
theorem Block.ofSource_concrete {source : String} {program : Block}
    (h : Block.ofSource source = .ok program) : Stmt.AllConcrete program := by
  unfold ofSource at h
  cases ht : Token.ofSource source with
  | error fault =>
    rw [ht] at h
    cases h
  | ok tokens =>
    rw [ht] at h
    have hall := Block.programOfTokens_concrete tokens
    change (Block.programOfTokens tokens).toExcept = .ok program at h
    cases hr : Block.programOfTokens tokens with
    | ok a rest shorter =>
      rw [hr] at h
      cases h
      exact hall.of_ok hr
    | error fault rest =>
      rw [hr] at h
      cases h

end Offside
