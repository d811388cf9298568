import Mathlib.Logic.Relation
import Offside.Proofs.Runs.Visits
import Offside.Proofs.Execution.Discipline

/-!
The moments of a run leave nothing out. Evaluators that take the steps of execution at these moments
only, and do anything elsewhere, run the program alike.
-/

namespace Offside

/-- The second moment is the first one, or is entered from it, directly or by way of others. -/
abbrev Entered (limit : Nat) : Moment → Moment → Prop :=
  Relation.ReflTransGen (Enters limit)

theorem Along.entered {limit : Nat} {R : Machine → Machine → Prop} {a b : Moment}
    (hR : Along limit R) (h : Entered limit a b) : R a.machine b.machine := by
  induction h with
  | refl => exact hR.refl _
  | tail _ he ih => exact hR.trans ih (hR.enters he)

/-- From the moment on, the evaluators do what is done with `n` steps. -/
structure Agrees (limit n : Nat) (eval : Expr → Exec Evaluated) (exec : Stmt → Exec Signal)
    (a : Moment) : Prop where
  expr : ∀ e p m o, Entered limit a ⟨n, .expr e, p, m, o⟩ → eval e m = e.eval limit n m
  stmt : ∀ stmt p m o, Entered limit a ⟨n, .stmt stmt, p, m, o⟩ →
    exec stmt m = stmt.exec limit n m

namespace Exec

variable {α β : Type} {x x' : Exec α} {m : Machine}

theorem onLevel_congr
    (h : x { m with store := m.store.newLevel } = x' { m with store := m.store.newLevel }) :
    onLevel x m = onLevel x' m := by
  unfold onLevel dropLevelAfter
  rw [h]

theorem inFrame_congr (scope : Scope)
    (h : x { m with store := m.store.newFrame scope, depth := m.depth + 1 } =
      x' { m with store := m.store.newFrame scope, depth := m.depth + 1 }) :
    inFrame scope x m = inFrame scope x' m := by
  unfold inFrame dropLevelAfter
  rw [h]

end Exec

namespace Agrees

variable {limit n : Nat} {eval : Expr → Exec Evaluated} {exec : Stmt → Exec Signal}
  {a b : Moment} {p : Position} {m : Machine} {o : Origins}

theorem enter (h : Agrees limit n eval exec a) (he : Enters limit a b) :
    Agrees limit n eval exec b where
  expr e p m o hb := h.expr e p m o (.head he hb)
  stmt stmt p m o hb := h.stmt stmt p m o (.head he hb)

theorem evalValue {e : Expr} (h : Agrees limit n eval exec ⟨n, .expr e, p, m, o⟩) :
    Exec.evalValue eval e m = Exec.evalValue (Expr.eval limit n) e m :=
  Exec.bind_congr (h.expr e p m o .refl) fun _ _ _ => rfl

theorem evalAll {es : List Expr} (h : Agrees limit n eval exec ⟨n, .args es, p, m, o⟩) :
    Exec.evalAll eval es m = Exec.evalAll (Expr.eval limit n) es m := by
  induction es generalizing m with
  | nil => rfl
  | cons e es ih =>
    refine Exec.bind_congr (h.enter .arg).evalValue fun v m' hd => ?_
    exact Exec.bind_congr (ih (h.enter (.nextArg hd))) fun _ _ _ => rfl

theorem sequence {stmts : List Stmt} (h : Agrees limit n eval exec ⟨n, .seq stmts, p, m, o⟩) :
    Exec.sequence exec stmts m = Exec.sequence (Stmt.exec limit n) stmts m := by
  induction stmts generalizing p m o with
  | nil => rfl
  | cons stmt stmts ih =>
    refine Exec.bind_congr ((h.enter .head).stmt stmt p m o .refl) fun signal m' hd => ?_
    cases signal with
    | next => exact ih (h.enter (.tail hd))
    | «return» v => rfl

theorem block {stmts : Block} (h : Agrees limit n eval exec ⟨n, .block stmts, p, m, o⟩) :
    Exec.block exec stmts m = Exec.block (Stmt.exec limit n) stmts m :=
  Exec.onLevel_congr (h.enter .block).sequence

/-- First the parameters are bound, and then comes the body. -/
theorem bindArgs {f : Function} {rest rest' : Exec α}
    (hr : ∀ m o, Agrees limit n eval exec ⟨n, .block f.body, p.inner false, m, o⟩ →
      rest m = rest' m)
    (name : String) (i : Nat) (params : List Param) (values : List Value)
    (h : Agrees limit n eval exec ⟨n, .bind f i params values, p, m, o⟩) :
    (Exec.bindArgs name params values >>= fun _ => rest) m =
      (Exec.bindArgs name params values >>= fun _ => rest') m := by
  induction params generalizing i values m o with
  | nil => exact hr m o (h.enter (.body (.inl rfl)))
  | cons param params ih =>
    cases values with
    | nil => exact hr m o (h.enter (.body (.inr rfl)))
    | cons v values =>
      unfold Exec.bindArgs
      split
      · case h_1 w hw =>
        rw [Exec.bind_assoc, Exec.bind_assoc]
        refine Exec.bind_congr rfl fun _ m' hd => ?_
        obtain ⟨s, hreg, rfl⟩ := Exec.update_done (.declare _ _) hd
        exact ih (i + 1) values (h.enter (.param hw hreg))
      · rfl

theorem body {f : Function} {values : List Value}
    (h : Agrees limit n eval exec ⟨n, .bind f 0 f.params values, p, m, o⟩) (name : String) :
    Exec.body exec name f values m = Exec.body (Stmt.exec limit n) name f values m :=
  bindArgs (fun _ _ hb => Exec.bind_congr hb.block fun _ _ _ => rfl) name 0 f.params values h

theorem call {name : String} {args : List Expr}
    (h : Agrees limit n eval exec ⟨n, .call name args, p, m, o⟩) :
    Exec.call limit eval exec name args m =
      Exec.call limit (Expr.eval limit n) (Stmt.exec limit n) name args m := by
  refine Exec.bind_congr rfl fun found m' hd => ?_
  obtain ⟨f, scope⟩ := found
  obtain ⟨hf, rfl⟩ := Exec.lookup_done hd
  dsimp only
  split
  · case isTrue hlen =>
    refine Exec.bind_congr (h.enter (.args hf hlen)).evalAll fun values m₁ hargs => ?_
    refine Exec.bind_congr rfl fun depth m₂ hd => ?_
    cases hd
    split
    · rfl
    · case isFalse hdepth =>
      obtain ⟨q, hq⟩ := m'.store.exists_position o name
      have hframe := h.enter (.frame hf hlen hargs (Nat.lt_of_not_le hdepth) hq)
      exact Exec.bind_congr (Exec.inFrame_congr scope (hframe.body name)) fun _ _ _ => rfl
  · rfl

theorem assign {lhs rhs : Expr} {base : Option Operation}
    (h : Agrees limit n eval exec ⟨n + 1, .expr (.binary lhs (.assign base) rhs), p, m, o⟩) :
    Exec.assign eval lhs base rhs m = Exec.assign (Expr.eval limit n) lhs base rhs m := by
  refine Exec.bind_congr ((h.enter .left).expr lhs p m o .refl) fun ev m₁ hl => ?_
  refine Exec.bind_congr rfl fun target m₂ hd => ?_
  cases ev with
  | slot slot =>
    obtain ⟨-, rfl⟩ := Exec.pure_done hd
    exact Exec.bind_congr (h.enter (.assignRight hl)).evalValue fun _ _ _ => rfl
  | value v => cases hd

theorem index {lhs rhs : Expr}
    (h : Agrees limit n eval exec ⟨n + 1, .expr (.binary lhs .index rhs), p, m, o⟩) :
    Exec.index eval lhs rhs m = Exec.index (Expr.eval limit n) lhs rhs m := by
  refine Exec.bind_congr ((h.enter .left).expr lhs p m o .refl) fun ev m₁ hl => ?_
  exact Exec.bind_congr (h.enter (.indexRight hl)).evalValue fun _ _ _ => rfl

theorem evalStep {e : Expr} (h : Agrees limit n eval exec ⟨n + 1, .expr e, p, m, o⟩) :
    Exec.evalStep limit eval exec e m = e.eval limit (n + 1) m := by
  cases e with
  | boolean _ | number _ | string _ | identifier _ => rfl
  | list es => exact Exec.bind_congr (h.enter .elements).evalAll fun _ _ _ => rfl
  | unary op arg => exact Exec.bind_congr (h.enter .unary).evalValue fun _ _ _ => rfl
  | binary lhs op rhs =>
    cases op with
    | assign base => exact h.assign
    | index => exact h.index
    | operation op =>
      refine Exec.bind_congr (h.enter .left).evalValue fun v m₁ hl => ?_
      exact Exec.bind_congr (h.enter (.right hl)).evalValue fun _ _ _ => rfl
  | call name args => exact Exec.bind_congr (h.enter .call).call fun _ _ _ => rfl

theorem evalOptional {value : Option Expr}
    (h : ∀ e, value = some e → Agrees limit n eval exec ⟨n, .expr e, p, m, o⟩) :
    Exec.evalOptional eval value m = Exec.evalOptional (Expr.eval limit n) value m := by
  cases value with
  | none => rfl
  | some e => exact Exec.bind_congr (h e rfl).evalValue fun _ _ _ => rfl

theorem evalCondition {e : Expr} (h : Agrees limit n eval exec ⟨n, .expr e, p, m, o⟩) :
    Exec.evalCondition eval e m = Exec.evalCondition (Expr.eval limit n) e m :=
  Exec.bind_congr h.evalValue fun _ _ _ => rfl

/-- The machine at the beginning differs from that of the moment in its location at most. -/
theorem repeatWhile {loc : Location} {e : Expr} {stmts : Block} (k : Nat) {m₀ : Machine}
    (hm : { m₀ with location := some loc } = m.located (.while loc e stmts))
    (h : Agrees limit n eval exec ⟨n + 1, .stmt (.while loc e stmts), p, m, o⟩) :
    Exec.repeatWhile loc (Exec.evalCondition eval e) (Exec.block exec stmts) k m₀ =
      Exec.repeatWhile loc (Exec.evalCondition (Expr.eval limit n) e)
        (Exec.block (Stmt.exec limit n) stmts) k m₀ := by
  induction k generalizing m₀ m with
  | zero => rfl
  | succ k ih =>
    refine Exec.bind_congr rfl fun _ m₁ hd => ?_
    obtain rfl : m₁ = m.located (.while loc e stmts) := by
      rw [← hm]
      cases hd
      rfl
    refine Exec.bind_congr (h.enter (.operand rfl)).evalCondition fun again m₂ hc => ?_
    cases again with
    | false => rfl
    | true =>
      refine Exec.bind_congr (h.enter (.whileBody hc)).block fun signal m₃ hb => ?_
      cases signal with
      | next => exact ih rfl (h.enter (.whileAgain hc hb))
      | «return» v => rfl

theorem forEach {name : String} {element : Ty} {items : List Value} {stmts : Block}
    (h : Agrees limit n eval exec ⟨n, .each name element items stmts, p, m, o⟩) :
    Exec.forEach name element (Exec.block exec stmts) items m =
      Exec.forEach name element (Exec.block (Stmt.exec limit n) stmts) items m := by
  induction items generalizing m with
  | nil => rfl
  | cons item items ih =>
    refine Exec.bind_congr (Exec.onLevel_congr ?_) fun signal m' hd => ?_
    · refine Exec.bind_congr rfl fun _ m₁ hd => ?_
      obtain ⟨s, hreg, rfl⟩ := Exec.update_done (.declare _ _) hd
      exact ((h.enter .item).enter (.itemBody hreg)).block
    · cases signal with
      | next => exact ih (h.enter (.nextItem hd))
      | «return» v => rfl

theorem execStep {stmt : Stmt} (h : Agrees limit n eval exec ⟨n + 1, .stmt stmt, p, m, o⟩) :
    Exec.execStep limit eval exec n stmt m = stmt.exec limit (n + 1) m := by
  refine Exec.bind_congr rfl fun _ m₁ hd => ?_
  obtain rfl : m₁ = m.located stmt := by
    cases hd
    rfl
  have operand : ∀ e, stmt.operand? = some e →
      Agrees limit n eval exec ⟨n, .expr e, p, m.located stmt, o⟩ :=
    fun e he => h.enter (.operand he)
  cases stmt with
  | declare loc name ty initializer =>
    exact Exec.bind_congr (evalOptional operand) fun _ _ _ => rfl
  | define loc name params returns body => rfl
  | expr loc e =>
    cases e with
    | call name args => exact Exec.bind_congr (h.enter .callStmt).call fun _ _ _ => rfl
    | _ => exact Exec.bind_congr ((operand _ rfl).expr _ p _ o .refl) fun _ _ _ => rfl
  | «return» loc value => exact Exec.bind_congr (evalOptional operand) fun _ _ _ => rfl
  | print loc e => exact Exec.bind_congr (operand e rfl).evalValue fun _ _ _ => rfl
  | read loc target =>
    refine Exec.bind_congr (Exec.bind_congr ?_ fun _ _ _ => rfl) fun _ _ _ => rfl
    exact (operand target rfl).expr target p _ o .refl
  | cond loc condition thenBlock elseBlock =>
    refine Exec.bind_congr (operand condition rfl).evalCondition fun b m' hc => ?_
    cases b with
    | true => exact (h.enter (.thenBlock hc)).block
    | false =>
      cases elseBlock with
      | none => rfl
      | some stmts => exact (h.enter (.elseBlock hc)).block
  | «while» loc condition body => exact repeatWhile (m := m) n rfl h
  | «for» loc name range body =>
    refine Exec.bind_congr (operand range rfl).evalValue fun v m' hd => ?_
    cases hv : v.elements? with
    | none => rfl
    | some found =>
      obtain ⟨element, items⟩ := found
      exact (h.enter (.forItems hd hv)).forEach

end Agrees

/-- At the moments the evaluators take the steps of execution. -/
structure Stepwise (limit : Nat) (eval : Nat → Expr → Exec Evaluated)
    (exec : Nat → Stmt → Exec Signal) (moments : Moment → Prop) : Prop where
  expr : ∀ n e p m o, moments ⟨n, .expr e, p, m, o⟩ →
    eval n e m = match n with
      | 0 => .exhausted
      | n + 1 => Exec.evalStep limit (eval n) (exec n) e m
  stmt : ∀ n stmt p m o, moments ⟨n, .stmt stmt, p, m, o⟩ →
    exec n stmt m = match n with
      | 0 => .exhausted
      | n + 1 => Exec.execStep limit (eval n) (exec n) n stmt m

namespace Visited

variable {limit steps : Nat} {program : Block} {m₀ : Machine} {eval : Nat → Expr → Exec Evaluated}
  {exec : Nat → Stmt → Exec Signal}

theorem entered {a b : Moment} (h : Visited limit steps program m₀ a) (he : Entered limit a b) :
    Visited limit steps program m₀ b := by
  induction he with
  | refl => exact h
  | tail _ he ih => exact ih.enter he

theorem eval_exec_eq (h : Stepwise limit eval exec (Visited limit steps program m₀)) (n : Nat) :
    (∀ e p m o, Visited limit steps program m₀ ⟨n, .expr e, p, m, o⟩ →
      eval n e m = e.eval limit n m) ∧
      ∀ stmt p m o, Visited limit steps program m₀ ⟨n, .stmt stmt, p, m, o⟩ →
        exec n stmt m = stmt.exec limit n m := by
  induction n with
  | zero => exact ⟨h.expr 0, h.stmt 0⟩
  | succ n ih =>
    have agrees : ∀ {a}, Visited limit steps program m₀ a →
        Agrees limit n (eval n) (exec n) a := fun hv =>
      ⟨fun e p m o he => ih.1 e p m o (hv.entered he),
        fun stmt p m o he => ih.2 stmt p m o (hv.entered he)⟩
    exact ⟨fun e p m o hv => (h.expr (n + 1) e p m o hv).trans (agrees hv).evalStep,
      fun stmt p m o hv => (h.stmt (n + 1) stmt p m o hv).trans (agrees hv).execStep⟩

/-- Evaluators that take the steps of execution at the moments of a run, run the program as it is
run. So there is no other moment that the run depends on. -/
theorem covers (h : Stepwise limit eval exec (Visited limit steps program m₀)) :
    Exec.block (exec steps) program m₀ = Exec.block (Stmt.exec limit steps) program m₀ := by
  obtain ⟨he, hs⟩ := eval_exec_eq h steps
  have agrees : Agrees limit steps (eval steps) (exec steps)
      ⟨steps, .block program, ⟨.program, 0⟩, m₀, #[[]]⟩ :=
    ⟨fun e p m o hb => he e p m o (Visited.start.entered hb),
      fun stmt p m o hb => hs stmt p m o (Visited.start.entered hb)⟩
  exact agrees.block

end Visited

end Offside
