import Offside.Typing

/-!
Stores in which the same names have the same types. The typing rules do not tell such stores apart.
-/

namespace Offside.Store

/-- A name is a variable of the same type in both stores, or a function with the same parameters and
the same result, or it is neither for the same reason. -/
structure SameTypes (s t : Store) : Prop where
  ofVariable : ∀ name,
    (s.lookupVariable name).map Variable.ty = (t.lookupVariable name).map Variable.ty
  ofFunction : ∀ name,
    (s.lookupFunction name).map (fun found => (found.1.params, found.1.returns)) =
      (t.lookupFunction name).map fun found => (found.1.params, found.1.returns)

namespace SameTypes

variable {s t : Store}

mutual

/-- Expressions have the same types in both. -/
theorem check (h : s.SameTypes t) (e : Expr) : e.check t = e.check s := by
  match e with
  | .boolean _ | .number _ | .string _ => rfl
  | .list es => rw [Expr.check, Expr.check, h.checkElements es]
  | .identifier name =>
    have hname := h.ofVariable name
    rw [Expr.check, Expr.check]
    cases hs : s.lookupVariable name <;> cases ht : t.lookupVariable name <;> rw [hs, ht] at hname
    · cases hname
      rfl
    · cases hname
    · cases hname
    · case ok.ok v w =>
      have hty : v.ty = w.ty := Except.ok.inj hname
      change Except.ok _ = Except.ok _
      rw [hty]
  | .unary op arg => rw [Expr.check, Expr.check, h.check arg]
  | .binary lhs op rhs => rw [Expr.check, Expr.check, h.check lhs, h.check rhs]
  | .call name args =>
    have hname := h.ofFunction name
    rw [Expr.check, Expr.check]
    cases hs : s.lookupFunction name <;> cases ht : t.lookupFunction name <;> rw [hs, ht] at hname
    · cases hname
      rfl
    · cases hname
    · cases hname
    · case ok.ok found found' =>
      obtain ⟨hparams, hreturns⟩ := Prod.mk.inj (Except.ok.inj hname)
      change (if _ then _ else _) = (if _ then _ else _)
      rw [← hparams, ← hreturns, h.checkArgs name found.1.params args]

theorem checkElements (h : s.SameTypes t) (es : List Expr) :
    Expr.checkElements t es = Expr.checkElements s es := by
  match es with
  | [] => rfl
  | e :: es => rw [Expr.checkElements, Expr.checkElements, h.check e, h.checkElements es]

theorem checkArgs (h : s.SameTypes t) (function : String) (params : List Param) (es : List Expr) :
    Expr.checkArgs t function params es = Expr.checkArgs s function params es := by
  match es, params with
  | [], _ => rfl
  | _ :: _, [] => rfl
  | e :: es, param :: params =>
    rw [Expr.checkArgs, Expr.checkArgs, h.check e, h.checkArgs function params es]

end

variable (h : s.SameTypes t)

include h

theorem declaredType (name : String) (ty : Option Ty) (initializer : Option Expr) :
    Stmt.declaredType t name ty initializer = Stmt.declaredType s name ty initializer := by
  unfold Stmt.declaredType
  split <;> simp only [h.check]

theorem checkReturn (returns : Option Ty) (value : Option Expr) :
    Stmt.checkReturn t returns value = Stmt.checkReturn s returns value := by
  unfold Stmt.checkReturn
  split <;> simp only [h.check]

theorem checkPrint (e : Expr) : Stmt.checkPrint t e = Stmt.checkPrint s e := by
  unfold Stmt.checkPrint
  rw [h.check]

theorem checkRead (target : Expr) : Stmt.checkRead t target = Stmt.checkRead s target := by
  unfold Stmt.checkRead
  rw [h.check]

theorem checkCondition (e : Expr) : Stmt.checkCondition t e = Stmt.checkCondition s e := by
  unfold Stmt.checkCondition
  rw [h.check]

theorem elementType (range : Expr) : Stmt.elementType t range = Stmt.elementType s range := by
  unfold Stmt.elementType
  rw [h.check]

end SameTypes

end Offside.Store
