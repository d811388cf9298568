import Offside.Proofs.Execution.Comparison

/-!
Properties of computations that everything has that is put together from parts that have it. Such a
property holds of a step into an expression once it holds of its parts and of the frames of calls.
-/

namespace Offside.Exec

/-- A property of computations that is kept by the constructs which expressions are evaluated with.
The frame of a call is left out: a body does more, and may lose the property for a while. -/
structure Closed (P : ∀ {α : Type}, Exec α → Prop) : Prop where
  pure : ∀ {α : Type} (a : α), P (Pure.pure a)
  fail : ∀ {α : Type} (cause : RuntimeError), P (Exec.fail cause : Exec α)
  bind : ∀ {α β : Type} {x : Exec α} {y : α → Exec β}, P x → (∀ a, P (y a)) → P (x >>= y)
  lookup : ∀ {α : Type} (f : Store → Except StoreError α), P (Exec.lookup f)
  store : ∀ slot v, P (update (·.put slot v))
  depth : P Exec.depth
  readWord : P Exec.readWord

namespace Closed

variable {P : ∀ {α : Type}, Exec α → Prop} {limit : Nat} {eval : Expr → Exec Evaluated}
  {exec : Stmt → Exec Signal} (h : Closed P)
include h

theorem ofExcept {α : Type} (r : Except RuntimeError α) : P (Exec.ofExcept r) := by
  cases r with
  | ok a => exact h.pure a
  | error cause => exact h.fail cause

theorem load (slot : Slot) : P (Exec.load slot) :=
  h.lookup _

theorem valueOf (ev : Evaluated) : P (Exec.valueOf ev) := by
  cases ev with
  | slot slot => exact h.load slot
  | value v => exact h.pure v

theorem slotOf (ev : Evaluated) : P (Exec.slotOf ev) := by
  cases ev with
  | slot slot => exact h.pure slot
  | value v => exact h.fail _

theorem element (container : Evaluated) (index : Float) : P (Exec.element container index) := by
  rw [element_eq]
  exact h.bind (h.valueOf container) fun v => h.ofExcept _

theorem result (ty : Ty) (returned : Option Value) : P (Exec.result ty returned) := by
  unfold Exec.result
  split
  · split
    · exact h.pure _
    · exact h.fail _
  · split
    · exact h.pure _
    · exact h.fail _

theorem initialValue (name : String) (ty : Option Ty) (value : Option Value) :
    P (Exec.initialValue name ty value) := by
  obtain ⟨r, hr⟩ := exists_initialValue name ty value
  rw [hr]
  exact h.ofExcept r

section Parts

variable (he : ∀ e, P (eval e))
include he

theorem evalValue (e : Expr) : P (Exec.evalValue eval e) :=
  h.bind (he e) fun ev => h.valueOf ev

theorem evalAll (es : List Expr) : P (Exec.evalAll eval es) := by
  induction es with
  | nil => exact h.pure _
  | cons e es ih => exact h.bind (h.evalValue he e) fun v => h.bind ih fun vs => h.pure _

theorem assign (lhs : Expr) (base : Option Operation) (rhs : Expr) :
    P (Exec.assign eval lhs base rhs) := by
  refine h.bind (he lhs) fun ev => h.bind (h.slotOf ev) fun target => ?_
  refine h.bind (h.evalValue he rhs) fun value => ?_
  cases base with
  | none => exact h.bind (h.pure _) fun v => h.bind (h.store _ _) fun _ => h.pure _
  | some op =>
    refine h.bind (h.load target) fun old => h.bind (h.ofExcept _) fun v => ?_
    exact h.bind (h.store _ _) fun _ => h.pure _

theorem index (lhs rhs : Expr) : P (Exec.index eval lhs rhs) := by
  refine h.bind (he lhs) fun container => h.bind (h.evalValue he rhs) fun v => ?_
  split
  · exact h.element _ _
  · exact h.fail _

theorem evalOptional (value : Option Expr) : P (Exec.evalOptional eval value) := by
  cases value with
  | none => exact h.pure _
  | some e => exact h.bind (h.evalValue he e) fun _ => h.pure _

theorem evalCondition (e : Expr) : P (Exec.evalCondition eval e) := by
  refine h.bind (h.evalValue he e) fun v => ?_
  split
  · exact h.pure _
  · exact h.fail _

theorem readInto (target : Expr) : P (Exec.readInto eval target) := by
  refine h.bind (he target) fun ev => h.bind (h.slotOf ev) fun slot => ?_
  refine h.bind (h.load slot) fun old => h.bind h.readWord fun word => ?_
  exact h.bind (h.ofExcept _) fun new => h.store _ _

variable (hf : ∀ scope name f values, P (inFrame scope (body exec name f values)))
include hf

theorem call (name : String) (args : List Expr) : P (Exec.call limit eval exec name args) := by
  refine h.bind (h.lookup _) fun ⟨f, scope⟩ => ?_
  dsimp only
  split
  · refine h.bind (h.evalAll he args) fun values => h.bind h.depth fun calls => ?_
    split
    · exact h.fail _
    · exact h.bind (hf scope name f values) fun returned => h.result _ _
  · exact h.fail _

theorem evalStep (e : Expr) : P (Exec.evalStep limit eval exec e) := by
  match e with
  | .boolean _ | .number _ | .string _ => exact h.pure _
  | .list es => exact h.bind (h.evalAll he es) fun _ => h.pure _
  | .identifier _ => exact h.bind (h.lookup _) fun _ => h.pure _
  | .unary _ arg =>
    exact h.bind (h.evalValue he arg) fun _ => h.bind (h.ofExcept _) fun _ => h.pure _
  | .binary lhs (.assign base) rhs => exact h.assign he lhs base rhs
  | .binary lhs .index rhs => exact h.index he lhs rhs
  | .binary lhs (.operation _) rhs =>
    refine h.bind (h.evalValue he lhs) fun _ => h.bind (h.evalValue he rhs) fun _ => ?_
    exact h.bind (h.ofExcept _) fun _ => h.pure _
  | .call name args =>
    refine h.bind (h.call he hf name args) fun returned => ?_
    cases returned with
    | some v => exact h.pure _
    | none => exact h.fail _

end Parts

end Closed

end Offside.Exec
