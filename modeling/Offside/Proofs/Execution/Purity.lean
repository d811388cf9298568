import Offside.Proofs.Execution.Elements

/-!
Expressions without calls and assignments. They change nothing, and a number of steps that depends
on their size alone is enough for them; so what they come to depends on the machine alone.
-/

namespace Offside

mutual

/-- No function is called and nothing is assigned in the expression. -/
def Expr.Inert : Expr → Prop
  | .boolean _ | .number _ | .string _ | .identifier _ => True
  | .list es => Expr.AllInert es
  | .unary _ e => e.Inert
  | .binary _ (.assign _) _ | .call .. => False
  | .binary lhs _ rhs => lhs.Inert ∧ rhs.Inert

def Expr.AllInert : List Expr → Prop
  | [] => True
  | e :: es => e.Inert ∧ Expr.AllInert es

end

theorem Expr.sizeOf_pos (e : Expr) : 0 < sizeOf e := by
  cases e <;> simp +arith

namespace Exec

/-- With `size` steps or more, always the same comes out, and the machine is left as it is. -/
def Steady {α : Type} (size : Nat) (x : Nat → Exec α) (m : Machine) : Prop :=
  ∃ r, ∀ n, size ≤ n → x n m = ofExcept r m

namespace Steady

variable {α β : Type} {size size' : Nat} {x : Nat → Exec α} {m : Machine}

theorem mono (h : Steady size x m) (hle : size ≤ size') : Steady size' x m := by
  obtain ⟨r, hr⟩ := h
  exact ⟨r, fun n hn => hr n (Nat.le_trans hle hn)⟩

theorem same (h : Steady size x m) {n n' : Nat} (hn : size ≤ n) (hn' : size ≤ n') :
    x n m = x n' m := by
  obtain ⟨r, hr⟩ := h
  rw [hr n hn, hr n' hn']

theorem unchanged (h : Steady size x m) {n : Nat} (hn : size ≤ n) {a : α} {m' : Machine}
    (hd : x n m = .done a m') : m' = m := by
  obtain ⟨r, hr⟩ := h
  rw [hr n hn] at hd
  exact (ofExcept_done hd).2

/-- What takes no steps. -/
theorem ofExcept (r : Except RuntimeError α) : Steady size (fun _ => Exec.ofExcept r) m :=
  ⟨r, fun _ _ => rfl⟩

theorem pure (a : α) : Steady size (fun _ => Pure.pure a) m :=
  ofExcept (.ok a)

theorem fail (cause : RuntimeError) : Steady size (fun _ => (Exec.fail cause : Exec α)) m :=
  ofExcept (.error cause)

theorem lookup (f : Store → Except StoreError α) : Steady size (fun _ => Exec.lookup f) m := by
  cases hf : f m.store with
  | ok a => exact ⟨.ok a, fun _ _ => by simp only [Exec.lookup, hf]; rfl⟩
  | error e => exact ⟨.error (.store e), fun _ _ => by simp only [Exec.lookup, hf]; rfl⟩

/-- The machine being left as it is, what follows starts from the same one. -/
theorem bind {y : Nat → α → Exec β} (hx : Steady size x m)
    (hy : ∀ a, Steady size (fun n => y n a) m) : Steady size (fun n => x n >>= y n) m := by
  obtain ⟨r, hr⟩ := hx
  have hbind (n : Nat) (hn : size ≤ n) : (x n >>= y n) m = (Exec.ofExcept r >>= y n) m :=
    bind_congr (hr n hn) fun _ _ _ => rfl
  cases r with
  | ok a =>
    obtain ⟨r', hr'⟩ := hy a
    exact ⟨r', fun n hn => (hbind n hn).trans (hr' n hn)⟩
  | error cause => exact ⟨.error cause, fun n hn => hbind n hn⟩

theorem valueOf (ev : Evaluated) : Steady size (fun _ => Exec.valueOf ev) m := by
  cases ev with
  | slot slot => exact lookup (·.load slot)
  | value v => exact pure v

theorem element (container : Evaluated) (index : Float) :
    Steady size (fun _ => Exec.element container index) m := by
  rw [element_eq]
  exact bind (valueOf container) fun v => ofExcept _

variable {limit : Nat} {e : Expr}

theorem evalValue (h : Steady size (fun n => e.eval limit n) m) :
    Steady size (fun n => Exec.evalValue (Expr.eval limit n) e) m :=
  bind h valueOf

/-- One step is taken into the expression, and the others are left for its parts. -/
theorem step
    (h : Steady size (fun n => evalStep limit (Expr.eval limit n) (Stmt.exec limit n) e) m)
    (hlt : size < size') : Steady size' (fun n => e.eval limit n) m := by
  obtain ⟨r, hr⟩ := h
  refine ⟨r, fun n hn => ?_⟩
  obtain ⟨k, rfl⟩ : ∃ k, n = k + 1 := ⟨n - 1, by omega⟩
  exact hr k (by omega)

end Steady

end Exec

open Exec in
mutual

/-- What an expression without calls and assignments comes to depends on the machine alone. -/
theorem Expr.Inert.steady {e : Expr} (h : e.Inert) (limit : Nat) (m : Machine) :
    Steady (sizeOf e) (fun n => e.eval limit n) m := by
  match e with
  | .boolean _ | .number _ | .string _ => exact .step (.pure _) (Expr.sizeOf_pos _)
  | .identifier name => exact .step (.bind (.lookup _) fun _ => .pure _) (Expr.sizeOf_pos _)
  | .list es =>
    have hi : Expr.AllInert es := h
    have hes := hi.steady limit m
    exact .step (.bind hes fun _ => .pure _) (by simp)
  | .unary op arg =>
    have harg := (Expr.Inert.steady (e := arg) h limit m).evalValue
    exact .step (.bind harg fun _ => .bind (.ofExcept _) fun _ => .pure _) (by simp +arith)
  | .binary lhs .index rhs =>
    have hlhs := (Expr.Inert.steady (e := lhs) h.1 limit m).mono (Nat.le_add_right _ (sizeOf rhs))
    have hrhs := (Expr.Inert.steady (e := rhs) h.2 limit m).evalValue.mono
      (Nat.le_add_left _ (sizeOf lhs))
    refine .step (.bind hlhs fun container => .bind hrhs fun v => ?_) (by simp +arith)
    cases v.asNumber? with
    | some i => exact .element container i
    | none => exact .fail _
  | .binary lhs (.operation op) rhs =>
    have hlhs := (Expr.Inert.steady (e := lhs) h.1 limit m).evalValue.mono
      (Nat.le_add_right _ (sizeOf rhs))
    have hrhs := (Expr.Inert.steady (e := rhs) h.2 limit m).evalValue.mono
      (Nat.le_add_left _ (sizeOf lhs))
    refine .step (.bind hlhs fun left => .bind hrhs fun right => ?_) (by simp +arith)
    exact .bind (.ofExcept _) fun _ => .pure _
  | .call name args => exact h.elim

theorem Expr.AllInert.steady {es : List Expr} (h : Expr.AllInert es) (limit : Nat) (m : Machine) :
    Steady (sizeOf es) (fun n => evalAll (Expr.eval limit n) es) m := by
  match es with
  | [] => exact .pure _
  | e :: es =>
    have he := (Expr.Inert.steady h.1 limit m).evalValue
    have hes := Expr.AllInert.steady h.2 limit m
    exact .bind (he.mono (by simp +arith)) fun _ => .bind (hes.mono (by simp)) fun _ => .pure _

end

end Offside
