import Offside.Proofs.Execution.Discipline
import Offside.Proofs.Scope.Sight

/-!
What expressions denote. When an expression comes to a slot, then the slot is in sight where the
expression ends: names are resolved where they stand, and functions return values only.
-/

namespace Offside

namespace Exec

variable {α : Type} {limit : Nat} {eval : Expr → Exec Evaluated} {exec : Stmt → Exec Signal}

/-- What the computation comes to, if it is a slot, is in sight. -/
def Locates (x : Exec Evaluated) : Prop :=
  ∀ m, x.Ends m (fun ev m' => ∀ slot, ev = .slot slot → m'.store.Shows slot) fun _ _ => True

namespace Locates

theorem value (v : Value) : (Pure.pure (.value v) : Exec Evaluated).Locates :=
  fun _ => .pure nofun

theorem fail (cause : RuntimeError) : (Exec.fail cause).Locates :=
  fun _ => .fail trivial

theorem after {x : Exec α} {y : α → Exec Evaluated} (hy : ∀ a, (y a).Locates) :
    (x >>= y).Locates :=
  fun _ => .after hy

end Locates

theorem Tidy.shows {x : Exec α} (hx : x.Tidy) {m : Machine} {slot : Slot}
    (h : m.store.Shows slot) : x.Ends m (fun _ m' => m'.store.Shows slot) fun _ _ => True :=
  (hx m).mono (fun _ _ hk => h.of_shape hk.shape) fun _ _ _ => trivial

/-- An element of an array in a slot is in the same variable. -/
theorem element_locates (container : Evaluated) (index : Float) (m : Machine)
    (h : ∀ slot, container = .slot slot → m.store.Shows slot) :
    (element container index).Ends m
      (fun ev m' => ∀ slot, ev = .slot slot → m'.store.Shows slot) fun _ _ => True := by
  rw [element_eq]
  refine .bind ((Tidy.closed.valueOf container m).mono (fun v m' hk => ?_) fun _ _ _ => trivial)
  refine .ofExcept (fun ev hev slot hs => ?_) fun _ _ => trivial
  subst hs
  obtain ⟨place, p, -, -, -, hplace, rfl, -, -⟩ := Evaluated.item_slot hev
  exact (h place hplace).of_shape hk.shape

theorem index_locates (he : ∀ e, (eval e).Locates) (ht : ∀ e, (eval e).Tidy) (lhs rhs : Expr) :
    (index eval lhs rhs).Locates := by
  intro m
  refine .bind ((he lhs m).mono (fun container m₁ hc => ?_) fun _ _ _ => trivial)
  refine .bind ((Tidy.closed.evalValue ht rhs m₁).mono (fun v m₂ hk => ?_) fun _ _ _ => trivial)
  split
  · exact element_locates container _ m₂ fun slot hs => (hc slot hs).of_shape hk.shape
  · exact .fail trivial

/-- A slot that was assigned to is still that of the variable. -/
theorem assign_locates (he : ∀ e, (eval e).Locates) (ht : ∀ e, (eval e).Tidy) (lhs : Expr)
    (base : Option Operation) (rhs : Expr) : (assign eval lhs base rhs).Locates := by
  intro m
  refine .bind ((he lhs m).mono (fun ev m₁ hev => ?_) fun _ _ _ => trivial)
  cases ev with
  | value v => exact .bind (.fail trivial)
  | slot target =>
    refine .bind (.pure ?_)
    have h₁ := hev target rfl
    have hrhs := (Tidy.closed.evalValue ht rhs).shows h₁
    refine .bind (hrhs.mono (fun v m₂ h₂ => ?_) fun _ _ _ => trivial)
    have stored (w : Value) {m₃ : Machine} (h₃ : m₃.store.Shows target) :
        (do update (·.put target w); Pure.pure (Evaluated.slot target)).Ends m₃
          (fun ev m' => ∀ slot, ev = Evaluated.slot slot → m'.store.Shows slot)
          fun _ _ => True := by
      refine .bind (((Tidy.store target w).shows h₃).mono (fun _ _ h₄ => ?_) fun _ _ _ => trivial)
      exact .pure fun slot hs => by cases hs; exact h₄
    cases base with
    | none => exact .bind (.pure (stored v h₂))
    | some op =>
      have hload := (Tidy.closed.load target).shows h₂
      refine .bind (hload.mono (fun old m₃ h₃ => ?_) fun _ _ _ => trivial)
      exact .bind (.ofExcept (fun w _ => stored w h₃) fun _ _ => trivial)

theorem evalStep_locates (he : ∀ e, (eval e).Locates) (ht : ∀ e, (eval e).Tidy) (e : Expr) :
    (evalStep limit eval exec e).Locates := by
  match e with
  | .boolean _ | .number _ | .string _ => exact .value _
  | .list _ => exact .after fun _ => .value _
  | .unary _ _ => exact .after fun _ => .after fun _ => .value _
  | .identifier name =>
    intro m
    refine .bind (.lookup (fun slot hs => .pure fun slot' h => ?_) fun _ _ => trivial)
    cases h
    exact Store.shows_of_resolve hs
  | .binary lhs (.assign base) rhs => exact assign_locates he ht lhs base rhs
  | .binary lhs .index rhs => exact index_locates he ht lhs rhs
  | .binary _ (.operation _) _ => exact .after fun _ => .after fun _ => .after fun _ => .value _
  | .call _ _ =>
    refine .after fun returned => ?_
    cases returned with
    | some v => exact .value v
    | none => exact .fail _

end Exec

theorem Expr.eval_locates (limit n : Nat) (e : Expr) : (e.eval limit n).Locates := by
  induction n generalizing e with
  | zero => exact fun _ => .exhausted
  | succ n ih => exact Exec.evalStep_locates ih (fun e => e.eval_tidy limit n) e

end Offside
