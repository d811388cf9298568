import Offside.Proofs.Execution.Elements
import Offside.Proofs.Scope.Filled

/-!
Two ways to execute the same program, compared. A relation between computations that the constructs
of execution respect holds of a step into an expression or a statement, once it holds of what the
step does with the parts.
-/

namespace Offside.Exec

/-- A relation between computations that goes through the constructs of execution. Of slots and of
calls nothing is said here: a relation may hold only of the slots and the functions that are in
sight. Variables are bound with a value. -/
structure Congruent (R : ∀ {α : Type}, Exec α → Exec α → Prop) : Prop where
  pure : ∀ {α : Type} (a : α), R (Pure.pure a) (Pure.pure a)
  fail : ∀ {α : Type} (cause : RuntimeError), R (Exec.fail cause : Exec α) (Exec.fail cause)
  bind : ∀ {α β : Type} {x x' : Exec α} {y y' : α → Exec β}, R x x' → (∀ a, R (y a) (y' a)) →
    R (x >>= y) (x' >>= y')
  onLevel : ∀ {α : Type} {x x' : Exec α}, R x x' → R (onLevel x) (onLevel x')
  resolve : ∀ name, R (lookup (·.resolve name)) (lookup (·.resolve name))
  bindVariable : ∀ name ty value, R (update (·.declare name (.variable ⟨ty, some value⟩)))
    (update (·.declare name (.variable ⟨ty, some value⟩)))

/-- Both computations are of the same statements as well, and bind the same functions. -/
structure Respected (R : ∀ {α : Type}, Exec α → Exec α → Prop) : Prop extends Congruent R where
  register : ∀ name entry, entry.Filled →
    R (update (·.declare name entry)) (update (·.declare name entry))
  bindVariable := fun name ty value => register name _ (.intro ty value)
  setLocation : ∀ loc, R (setLocation loc) (setLocation loc)
  write : ∀ text, R (write text) (write text)

/-- The relation holds of all that a step does with the meanings of its parts. -/
structure Compared (R : ∀ {α : Type}, Exec α → Exec α → Prop) (limit limit' n n' : Nat)
    (eval eval' : Expr → Exec Evaluated) (exec exec' : Stmt → Exec Signal) : Prop where
  expr : ∀ e, R (eval e) (eval' e)
  stmt : ∀ stmt, R (exec stmt) (exec' stmt)
  value : ∀ e, R (evalValue eval e) (evalValue eval' e)
  index : ∀ lhs rhs, R (index eval lhs rhs) (index eval' lhs rhs)
  assign : ∀ lhs base rhs, R (assign eval lhs base rhs) (assign eval' lhs base rhs)
  readInto : ∀ target, R (readInto eval target) (readInto eval' target)
  call : ∀ name args, R (call limit eval exec name args) (call limit' eval' exec' name args)
  repeatWhile : ∀ loc {condition condition' body body'}, R condition condition' → R body body' →
    R (repeatWhile loc condition body n) (repeatWhile loc condition' body' n')

/-- To find the first value of a variable, nothing but its declaration is looked at. -/
theorem exists_initialValue (name : String) (ty : Option Ty) (value : Option Value) :
    ∃ r, initialValue name ty value = ofExcept r := by
  have bind {α β : Type} {x : Exec α} {y : α → Exec β} (hx : ∃ r, x = ofExcept r)
      (hy : ∀ a, ∃ r, y a = ofExcept r) : ∃ r, x >>= y = ofExcept r := by
    obtain ⟨r, rfl⟩ := hx
    cases r with
    | ok a => exact hy a
    | error cause => exact ⟨.error cause, rfl⟩
  unfold initialValue
  extract_lets fit
  have hfit (ty : Ty) : ∃ r, fit ty = ofExcept r := by
    unfold fit
    dsimp only
    split
    · exact ⟨.ok _, rfl⟩
    · exact ⟨.error _, rfl⟩
  split
  · exact bind ⟨.ok _, rfl⟩ hfit
  · split
    · exact bind ⟨.ok _, rfl⟩ hfit
    · exact bind ⟨.error _, rfl⟩ hfit
  · exact bind ⟨.error _, rfl⟩ hfit

namespace Congruent

variable {R : ∀ {α : Type}, Exec α → Exec α → Prop} {α : Type}

theorem ofExcept (h : Congruent R) (r : Except RuntimeError α) :
    R (Exec.ofExcept r) (Exec.ofExcept r) := by
  cases r with
  | ok a => exact h.pure a
  | error cause => exact h.fail cause

theorem sequence (h : Congruent R) {exec exec' : Stmt → Exec Signal}
    (hs : ∀ stmt, R (exec stmt) (exec' stmt)) (stmts : List Stmt) :
    R (Exec.sequence exec stmts) (Exec.sequence exec' stmts) := by
  induction stmts with
  | nil => exact h.pure _
  | cons stmt stmts ih =>
    refine h.bind (hs stmt) fun signal => ?_
    cases signal with
    | next => exact ih
    | «return» v => exact h.pure _

theorem block (h : Congruent R) {exec exec' : Stmt → Exec Signal}
    (hs : ∀ stmt, R (exec stmt) (exec' stmt)) (stmts : Block) :
    R (Exec.block exec stmts) (Exec.block exec' stmts) :=
  h.onLevel (h.sequence hs stmts)

theorem bindArgs (h : Congruent R) (function : String) (params : List Param)
    (values : List Value) :
    R (Exec.bindArgs function params values) (Exec.bindArgs function params values) := by
  induction params generalizing values with
  | nil => exact h.pure _
  | cons p params ih =>
    cases values with
    | nil => exact h.pure _
    | cons v values =>
      unfold Exec.bindArgs
      split
      · exact h.bind (h.bindVariable _ _ _) fun _ => ih values
      · exact h.fail _

theorem body (h : Congruent R) {exec exec' : Stmt → Exec Signal}
    (hs : ∀ stmt, R (exec stmt) (exec' stmt)) (name : String) (f : Function)
    (values : List Value) : R (Exec.body exec name f values) (Exec.body exec' name f values) := by
  refine h.bind (h.bindArgs _ _ _) fun _ => h.bind (h.block hs f.body) fun signal => ?_
  cases signal with
  | next => exact h.pure _
  | «return» v => exact h.pure _

theorem result (h : Congruent R) (ty : Ty) (returned : Option Value) :
    R (Exec.result ty returned) (Exec.result ty returned) := by
  unfold Exec.result
  split
  · split
    · exact h.pure _
    · exact h.fail _
  · split
    · exact h.pure _
    · exact h.fail _

theorem evalAll (h : Congruent R) {eval eval' : Expr → Exec Evaluated}
    (he : ∀ e, R (Exec.evalValue eval e) (Exec.evalValue eval' e)) (es : List Expr) :
    R (Exec.evalAll eval es) (Exec.evalAll eval' es) := by
  induction es with
  | nil => exact h.pure _
  | cons e es ih => exact h.bind (he e) fun v => h.bind ih fun vs => h.pure _

theorem initialValue (h : Congruent R) (name : String) (ty : Option Ty) (value : Option Value) :
    R (Exec.initialValue name ty value) (Exec.initialValue name ty value) := by
  obtain ⟨r, hr⟩ := exists_initialValue name ty value
  rw [hr]
  exact h.ofExcept r

/-- The second loop may be repeated more often, if it may end as the first one when that one runs
out of repetitions. -/
theorem repeatWhile (h : Congruent R) {loc loc' : Location} {condition condition' : Exec Bool}
    {body body' : Exec Signal} {more : Nat}
    (hloc : R (Exec.setLocation loc) (Exec.setLocation loc'))
    (hstop : R exhausted (Exec.repeatWhile loc' condition' body' more))
    (hc : R condition condition') (hb : R body body') (n : Nat) :
    R (Exec.repeatWhile loc condition body n)
      (Exec.repeatWhile loc' condition' body' (n + more)) := by
  induction n with
  | zero =>
    rw [Nat.zero_add]
    exact hstop
  | succ n ih =>
    rw [Nat.succ_add]
    refine h.bind hloc fun _ => h.bind hc fun again => ?_
    split
    · refine h.bind hb fun signal => ?_
      cases signal with
      | next => exact ih
      | «return» v => exact h.pure _
    · exact h.pure _

theorem forEach (h : Congruent R) (name : String) (element : Ty) {body body' : Exec Signal}
    (hb : R body body') (items : List Value) :
    R (Exec.forEach name element body items) (Exec.forEach name element body' items) := by
  induction items with
  | nil => exact h.pure _
  | cons item items ih =>
    have hi := h.bind (h.bindVariable name element item) fun _ => hb
    refine h.bind (h.onLevel hi) fun signal => ?_
    cases signal with
    | next => exact ih
    | «return» v => exact h.pure _

section Steps

variable {limit limit' : Nat} {eval eval' : Expr → Exec Evaluated}
  {exec exec' : Stmt → Exec Signal}

theorem evalStep (h : Congruent R)
    (hvalue : ∀ e, R (Exec.evalValue eval e) (Exec.evalValue eval' e))
    (hindex : ∀ lhs rhs, R (Exec.index eval lhs rhs) (Exec.index eval' lhs rhs))
    (hassign : ∀ lhs base rhs, R (Exec.assign eval lhs base rhs) (Exec.assign eval' lhs base rhs))
    (hcall : ∀ name args,
      R (Exec.call limit eval exec name args) (Exec.call limit' eval' exec' name args))
    (e : Expr) : R (Exec.evalStep limit eval exec e) (Exec.evalStep limit' eval' exec' e) := by
  match e with
  | .boolean _ | .number _ | .string _ => exact h.pure _
  | .list es => exact h.bind (h.evalAll hvalue es) fun _ => h.pure _
  | .identifier name => exact h.bind (h.resolve name) fun _ => h.pure _
  | .unary _ arg =>
    exact h.bind (hvalue arg) fun _ => h.bind (h.ofExcept _) fun _ => h.pure _
  | .binary lhs (.assign base) rhs => exact hassign lhs base rhs
  | .binary lhs .index rhs => exact hindex lhs rhs
  | .binary lhs (.operation _) rhs =>
    refine h.bind (hvalue lhs) fun _ => h.bind (hvalue rhs) fun _ => ?_
    exact h.bind (h.ofExcept _) fun _ => h.pure _
  | .call name args =>
    refine h.bind (hcall name args) fun returned => ?_
    cases returned with
    | some v => exact h.pure _
    | none => exact h.fail _

theorem evalOptional (h : Congruent R)
    (he : ∀ e, R (Exec.evalValue eval e) (Exec.evalValue eval' e)) (e : Option Expr) :
    R (Exec.evalOptional eval e) (Exec.evalOptional eval' e) := by
  cases e with
  | none => exact h.pure _
  | some e => exact h.bind (he e) fun _ => h.pure _

theorem evalCondition (h : Congruent R)
    (he : ∀ e, R (Exec.evalValue eval e) (Exec.evalValue eval' e)) (e : Expr) :
    R (Exec.evalCondition eval e) (Exec.evalCondition eval' e) := by
  refine h.bind (he e) fun v => ?_
  split
  · exact h.pure _
  · exact h.fail _

end Steps

/-! What is done with slots, for a relation that respects all of them. -/

section Slots

variable {eval eval' : Expr → Exec Evaluated} (h : Congruent R)
  (hload : ∀ slot, R (load slot) (load slot))
  (hstore : ∀ slot v, R (update (·.put slot v)) (update (·.put slot v)))

include h

theorem slotOf (ev : Evaluated) : R (Exec.slotOf ev) (Exec.slotOf ev) := by
  cases ev with
  | slot slot => exact h.pure slot
  | value v => exact h.fail _

include hload

theorem valueOf (ev : Evaluated) : R (Exec.valueOf ev) (Exec.valueOf ev) := by
  cases ev with
  | slot slot => exact hload slot
  | value v => exact h.pure v

theorem evalValue (he : ∀ e, R (eval e) (eval' e)) (e : Expr) :
    R (Exec.evalValue eval e) (Exec.evalValue eval' e) :=
  h.bind (he e) fun ev => h.valueOf hload ev

theorem element (container : Evaluated) (i : Float) :
    R (Exec.element container i) (Exec.element container i) := by
  rw [element_eq]
  exact h.bind (h.valueOf hload container) fun v => h.ofExcept _

theorem index (he : ∀ e, R (eval e) (eval' e)) (lhs rhs : Expr) :
    R (Exec.index eval lhs rhs) (Exec.index eval' lhs rhs) := by
  refine h.bind (he lhs) fun container => h.bind (h.evalValue hload he rhs) fun v => ?_
  split
  · exact h.element hload container _
  · exact h.fail _

include hstore

theorem assign (he : ∀ e, R (eval e) (eval' e)) (lhs : Expr) (base : Option Operation)
    (rhs : Expr) : R (Exec.assign eval lhs base rhs) (Exec.assign eval' lhs base rhs) := by
  refine h.bind (he lhs) fun ev => h.bind (h.slotOf ev) fun target => ?_
  refine h.bind (h.evalValue hload he rhs) fun value => ?_
  cases base with
  | none => exact h.bind (h.pure _) fun v => h.bind (hstore _ _) fun _ => h.pure _
  | some op =>
    refine h.bind (hload target) fun old => h.bind (h.ofExcept _) fun v => ?_
    exact h.bind (hstore _ _) fun _ => h.pure _

theorem readInto (hread : R readWord readWord) (he : ∀ e, R (eval e) (eval' e)) (target : Expr) :
    R (Exec.readInto eval target) (Exec.readInto eval' target) := by
  refine h.bind (he target) fun ev => h.bind (h.slotOf ev) fun slot => ?_
  refine h.bind (hload slot) fun old => h.bind hread fun word => ?_
  exact h.bind (h.ofExcept _) fun new => hstore _ _

end Slots

end Congruent

namespace Respected

variable {R : ∀ {α : Type}, Exec α → Exec α → Prop}

theorem repeatWhile (h : Respected R) {loc : Location} {condition condition' : Exec Bool}
    {body body' : Exec Signal} {more : Nat}
    (hstop : R exhausted (Exec.repeatWhile loc condition' body' more))
    (hc : R condition condition') (hb : R body body') (n : Nat) :
    R (Exec.repeatWhile loc condition body n)
      (Exec.repeatWhile loc condition' body' (n + more)) :=
  h.toCongruent.repeatWhile (h.setLocation loc) hstop hc hb n

section Steps

variable {limit limit' n n' : Nat} {eval eval' : Expr → Exec Evaluated}
  {exec exec' : Stmt → Exec Signal}

theorem evalStep (h : Respected R) (hc : Compared R limit limit' n n' eval eval' exec exec')
    (e : Expr) : R (Exec.evalStep limit eval exec e) (Exec.evalStep limit' eval' exec' e) :=
  h.toCongruent.evalStep hc.value hc.index hc.assign hc.call e

theorem execStep (h : Respected R) (hc : Compared R limit limit' n n' eval eval' exec exec')
    (stmt : Stmt) :
    R (Exec.execStep limit eval exec n stmt) (Exec.execStep limit' eval' exec' n' stmt) := by
  refine h.bind (h.setLocation _) fun _ => ?_
  match stmt with
  | .declare _ name ty initializer =>
    refine h.bind (h.evalOptional hc.value initializer) fun value => ?_
    refine h.bind (h.initialValue name ty value) fun _ => ?_
    exact h.bind (h.register name _ (.intro _ _)) fun _ => h.pure _
  | .define _ name params returns body =>
    exact h.bind (h.register name _ trivial) fun _ => h.pure _
  | .expr _ e =>
    cases e with
    | call name args => exact h.bind (hc.call name args) fun _ => h.pure _
    | _ => exact h.bind (hc.expr _) fun _ => h.pure _
  | .return _ value => exact h.bind (h.evalOptional hc.value value) fun _ => h.pure _
  | .print _ e => exact h.bind (hc.value e) fun _ => h.bind (h.write _) fun _ => h.pure _
  | .read _ target => exact h.bind (hc.readInto target) fun _ => h.pure _
  | .cond _ condition thenBlock elseBlock =>
    refine h.bind (h.evalCondition hc.value condition) fun b => ?_
    split
    · exact h.block hc.stmt thenBlock
    · split
      · exact h.block hc.stmt _
      · exact h.pure _
  | .while loc condition body =>
    exact hc.repeatWhile loc (h.evalCondition hc.value condition) (h.block hc.stmt body)
  | .for _ name range body =>
    refine h.bind (hc.value range) fun v => ?_
    split
    · exact h.forEach _ _ (h.block hc.stmt body) _
    · exact h.fail _

end Steps

end Respected

end Offside.Exec
