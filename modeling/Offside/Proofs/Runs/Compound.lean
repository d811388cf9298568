import Offside.Proofs.Execution.Purity
import Offside.Proofs.Runs.Invariants
import Offside.Proofs.Typing.Checks
import Offside.Typing.Checker

/-!
Assignments that compute the new value from the old one. Without calls and assignments in it, such
an assignment does the same as the one in which the operation is written out, and the checker finds
the same types in both.
-/

namespace Offside

namespace Expr

/-- Assign to `t` what an operation computes from its value and that of `e`. -/
def compound (op : Operation) (t e : Expr) : Expr :=
  .binary t (.assign (some op)) e

/-- The same with the operation written out, so that `t` is evaluated once more for its value. -/
def writtenOut (op : Operation) (t e : Expr) : Expr :=
  .binary t (.assign none) (.binary t (.operation op) e)

end Expr

/-! What both do with the values. -/

namespace Exec

variable {eval : Expr → Exec Evaluated} {t e : Expr} {target : Slot} {m : Machine}
  {r : Except RuntimeError Value}

/-- The end of an assignment, when the new value has been computed. -/
def assignTo (target : Slot) (r : Except RuntimeError Value) : Exec Evaluated := do
  let value ← ofExcept r
  update (·.put target value)
  return .slot target

theorem assignTo_ends (target : Slot) (r : Except RuntimeError Value) (m : Machine) :
    (∃ slot m', assignTo target r m = .done (.slot slot) m') ∨
      ∃ f m', assignTo target r m = .fault f m' := by
  cases r with
  | error cause => exact .inr ⟨_, _, rfl⟩
  | ok value =>
    cases hs : m.store.store target value with
    | ok s =>
      have hu : update (·.put target value) m = .done () { m with store := s } := by
        rw [update_eq (.put target value), hs]
      exact .inl ⟨_, _, bind_of_done (y := fun _ => Pure.pure (Evaluated.slot target)) hu⟩
    | error cause =>
      have hu : update (·.put target value) m = .fault ⟨.store cause, m.location⟩ m := by
        rw [update_eq (.put target value), hs]
      exact .inr ⟨_, _, bind_of_fault (y := fun _ => Pure.pure (Evaluated.slot target)) hu⟩

theorem assign_none (ht : eval t m = .done (.slot target) m)
    (he : evalValue eval e m = ofExcept r m) : assign eval t none e m = assignTo target r m := by
  refine (bind_of_done ht).trans ?_
  change (evalValue eval e >>= fun v => assignTo target (.ok v)) m = _
  cases r with
  | error cause => exact bind_of_fault he
  | ok v => exact bind_of_done he

/-- The target is read after the new value has been computed. -/
theorem assign_some {op : Operation} {old : Value} (ht : eval t m = .done (.slot target) m)
    (hold : m.store.load target = .ok old) (he : evalValue eval e m = ofExcept r m) :
    assign eval t (some op) e m = assignTo target (r >>= fun v => op.apply old v) m := by
  have hload : load target m = .done old m := by
    change lookup (·.load target) m = _
    simp only [lookup, hold]
  refine (bind_of_done ht).trans ?_
  change (evalValue eval e >>= fun v =>
    load target >>= fun old => assignTo target (op.apply old v)) m = _
  cases r with
  | error cause => exact bind_of_fault he
  | ok v => exact (bind_of_done he).trans (bind_of_done hload)

/-- A fault on the left, or something that is no slot there, comes first. -/
theorem assign_of_no_slot {cause : RuntimeError} (base : Option Operation)
    (ht : (eval t >>= slotOf) m = fail cause m) : assign eval t base e m = fail cause m := by
  unfold assign
  rw [← bind_assoc]
  exact bind_of_fault ht

end Exec

/-! The types. -/

/-- A variable that takes a primitive type has it. -/
theorem Ty.accepts_iff_of_isPrimitive {a t : Ty} (ht : t.isPrimitive) : a.accepts t ↔ a = t := by
  cases t <;> cases a <;> simp_all [isPrimitive, accepts, isConcrete]

theorem Operation.isPrimitive_result {op : Operation} {a b t : Ty}
    (h : op.resultType? a b = some t) : t.isPrimitive := by
  unfold resultType? at h
  split at h
  case h_9 | h_10 =>
    split at h
    · cases h
      rfl
    · cases h
  all_goals first | (cases h; rfl) | cases h

/-- What an operation computes can be assigned where the checker finds that very type. -/
theorem Operation.accepts_result_iff {op : Operation} {a b : Ty} :
    (∃ t, op.resultType? a b = some t ∧ a.accepts t) ↔ op.resultType? a b = some a := by
  constructor
  · rintro ⟨t, ht, ha⟩
    rw [Ty.accepts_iff_of_isPrimitive (isPrimitive_result ht)] at ha
    rw [ht, ha]
  · intro h
    exact ⟨a, h, (Ty.accepts_iff_of_isPrimitive (isPrimitive_result h)).2 rfl⟩

namespace Expr

variable {s : Store} {lhs rhs t e : Expr} {typed : Typed}

theorem check_binary_iff {op : BinaryOp} : (Expr.binary lhs op rhs).check s = .ok typed ↔
    ∃ left right, lhs.check s = .ok left ∧ rhs.check s = .ok right ∧
      op.check lhs left right = .ok typed := by
  refine ⟨check_binary, fun ⟨left, right, hl, hr, h⟩ => ?_⟩
  rw [check, hl, hr]
  exact h

theorem check_compound (op : Operation) (s : Store) (t e : Expr) (typed : Typed) :
    (compound op t e).check s = .ok typed ↔ (writtenOut op t e).check s = .ok typed := by
  unfold compound writtenOut
  rw [check_binary_iff, check_binary_iff]
  constructor
  · rintro ⟨left, right, hl, hr, h⟩
    obtain ⟨hslot, hty, rfl⟩ := BinaryOp.check_assign_of h
    obtain ⟨ty, hresult, haccepts⟩ := Operation.accepts_result_iff.2 hty
    refine ⟨left, ⟨ty, .value⟩, hl, check_binary_iff.2 ⟨left, right, hl, hr, ?_⟩, ?_⟩
    · simp only [BinaryOp.check, hresult]
    · simp only [BinaryOp.check, hslot, haccepts, reduceCtorEq, if_false, if_true]
  · rintro ⟨left, value, hl, hv, h⟩
    obtain ⟨hslot, haccepts, rfl⟩ := BinaryOp.check_assign h
    obtain ⟨left', right, hl', hr, hop⟩ := check_binary hv
    cases hl.symm.trans hl'
    obtain ⟨ty, hresult, rfl⟩ := BinaryOp.check_operation hop
    refine ⟨left, right, hl, hr, ?_⟩
    have hty := Operation.accepts_result_iff.1 ⟨ty, hresult, haccepts⟩
    simp [BinaryOp.check, hslot, hty]

theorem expr_eq_ok_iff (c : Checker) : c.expr e = .ok typed ↔ e.check c.store = .ok typed := by
  unfold Checker.expr analyze Check.ask
  dsimp only
  cases e.check c.store with
  | ok found => exact ⟨fun h => congrArg _ (Except.ok.inj h), fun h => congrArg _ (Except.ok.inj h)⟩
  | error cause => exact ⟨nofun, nofun⟩

end Expr

/-! The execution. -/

open Exec in
theorem Expr.eval_operation {limit n : Nat} {m : Machine} {op : Operation} {t e : Expr}
    {old : Value} {r : Except RuntimeError Value}
    (ht : evalValue (Expr.eval limit n) t m = .done old m)
    (he : evalValue (Expr.eval limit n) e m = ofExcept r m) :
    evalValue (Expr.eval limit (n + 1)) (.binary t (.operation op) e) m =
      ofExcept (r >>= fun v => op.apply old v) m := by
  have hleft : Expr.eval limit (n + 1) (.binary t (.operation op) e) m =
      (evalValue (Expr.eval limit n) e >>= fun v =>
        ofExcept (op.apply old v) >>= fun w => Pure.pure (Evaluated.value w)) m := bind_of_done ht
  cases r with
  | error cause => exact bind_of_fault (hleft.trans (bind_of_fault he))
  | ok v =>
    have hboth := hleft.trans (bind_of_done he)
    change evalValue (Expr.eval limit (n + 1)) (.binary t (.operation op) e) m =
      ofExcept (op.apply old v) m
    cases hv : op.apply old v with
    | error cause =>
      rw [hv] at hboth
      exact bind_of_fault hboth
    | ok w =>
      rw [hv] at hboth
      exact bind_of_done hboth

open Exec in
/-- What both kinds of assignment come to, when the target is a slot that can be read. -/
theorem Expr.eval_compound {limit n : Nat} {m : Machine} {target : Slot} {old : Value}
    {t e : Expr} {r : Except RuntimeError Value} (op : Operation)
    (ht : ∀ k, n ≤ k → t.eval limit k m = .done (.slot target) m)
    (hold : m.store.load target = .ok old)
    (he : ∀ k, n ≤ k → evalValue (Expr.eval limit k) e m = ofExcept r m) :
    ∀ k, n + 2 ≤ k →
      (compound op t e).eval limit k m = assignTo target (r >>= fun v => op.apply old v) m ∧
      (writtenOut op t e).eval limit k m = assignTo target (r >>= fun v => op.apply old v) m := by
  intro k hk
  obtain ⟨k, rfl⟩ : ∃ i, k = i + 2 := ⟨k - 2, by omega⟩
  have hload : load target m = .done old m := by
    change lookup (·.load target) m = _
    simp only [lookup, hold]
  have hread : evalValue (Expr.eval limit k) t m = .done old m :=
    (bind_of_done (ht k (by omega))).trans hload
  exact ⟨assign_some (ht _ (by omega)) hold (he _ (by omega)),
    assign_none (ht _ (by omega)) (eval_operation hread (he _ (by omega)))⟩

open Exec in
/-- A compound assignment is the assignment of its operation, as long as the target and the operand
call and assign nothing. Wherever a run has come to, both end with the same slot or with the same
fault, and on the same machine; and a checker, whatever it has done before, accepts one if and only
if it accepts the other, and finds the same type. -/
theorem Reached.compound_as_written_out {limit steps : Nat} {program : Block}
    {m₀ m : Machine} {o : Origins} (hm : m₀.Idle)
    (hr : Reached limit steps program m₀ m.store o) (op : Operation) {t e : Expr} (ht : t.Inert)
    (he : e.Inert) :
    (∃ outcome : Outcome Evaluated,
      ((∃ slot m', outcome = .done (.slot slot) m') ∨ ∃ f m', outcome = .fault f m') ∧
      ∀ n, sizeOf (Expr.writtenOut op t e) ≤ n →
        (Expr.compound op t e).eval limit n m = outcome ∧
        (Expr.writtenOut op t e).eval limit n m = outcome) ∧
    ∀ (c : Checker) typed, c.expr (.compound op t e) = .ok typed ↔
      c.expr (.writtenOut op t e) = .ok typed := by
  have hchecked (c : Checker) (typed : Typed) : c.expr (.compound op t e) = .ok typed ↔
      c.expr (.writtenOut op t e) = .ok typed := by
    rw [Expr.expr_eq_ok_iff, Expr.expr_eq_ok_iff]
    exact Expr.check_compound op c.store t e typed
  refine ⟨?_, hchecked⟩
  have hsize : max (sizeOf t) (sizeOf e) + 2 ≤ sizeOf (Expr.writtenOut op t e) := by
    unfold Expr.writtenOut
    rw [Expr.binary.sizeOf_spec, Expr.binary.sizeOf_spec]
    omega
  -- neither assignment goes on when the left side comes to no slot
  have refused {cause : RuntimeError}
      (h : ∀ k, sizeOf t ≤ k → (t.eval limit k >>= slotOf) m = fail cause m) :
      ∃ outcome : Outcome Evaluated,
        ((∃ slot m', outcome = .done (.slot slot) m') ∨ ∃ f m', outcome = .fault f m') ∧
        ∀ n, sizeOf (Expr.writtenOut op t e) ≤ n →
          (Expr.compound op t e).eval limit n m = outcome ∧
          (Expr.writtenOut op t e).eval limit n m = outcome := by
    refine ⟨fail cause m, .inr ⟨_, _, rfl⟩, fun n hn => ?_⟩
    obtain ⟨k, rfl⟩ : ∃ k, n = k + 1 := ⟨n - 1, by omega⟩
    have hk := h k (by omega)
    exact ⟨assign_of_no_slot (e := e) (some op) hk, assign_of_no_slot none hk⟩
  obtain ⟨left, hleft⟩ := ht.steady limit m
  obtain ⟨r, hright⟩ := (he.steady limit m).evalValue
  cases left with
  | error cause => exact refused fun k hk => bind_of_fault (hleft k hk)
  | ok ev =>
    cases ev with
    | value v => exact refused fun k hk => bind_of_done (hleft k hk)
    | slot target =>
      have hslot : ∀ k, sizeOf t ≤ k → t.eval limit k m = .done (.slot target) m := hleft
      obtain ⟨old, hold⟩ :=
        (Expr.eval_loads (hr.filled hm) limit _ t).of_done (hslot _ (Nat.le_refl _)) target rfl
      have hboth := Expr.eval_compound (n := max (sizeOf t) (sizeOf e)) op
        (fun k hk => hslot k (by omega)) hold fun k hk => hright k (by omega)
      exact ⟨_, assignTo_ends target _ m, fun n hn => hboth n (by omega)⟩

/-- An item of a list gets a text behind it. -/
theorem Reached.compound_as_written_out_in_list :
    let program : Block := [
      .declare ⟨1, 1⟩ "t" none (some (.list [.string "a", .string "b"])),
      .declare ⟨2, 1⟩ "i" none (some (.number 1))]
    let t : Expr := .binary (.identifier "t") .index (.identifier "i")
    let e : Expr := .binary (.string "c") (.operation .add) (.binary (.string "de") .index
      (.identifier "i"))
    ∃ (m : Machine) (o : Origins), (Machine.new ⟨[], []⟩ .unlimited).Idle ∧
      Reached 8 9 program (.new ⟨[], []⟩ .unlimited) m.store o ∧ t.Inert ∧ e.Inert ∧
      m.store.load ⟨1, "t", []⟩ = .ok (.array .string [.string "a", .string "b"]) ∧
      (∃ outcome : Outcome Evaluated,
        ((∃ slot m', outcome = .done (.slot slot) m') ∨ ∃ f m', outcome = .fault f m') ∧
        ∀ n, sizeOf (Expr.writtenOut .add t e) ≤ n →
          (Expr.compound .add t e).eval 8 n m = outcome ∧
          (Expr.writtenOut .add t e).eval 8 n m = outcome) ∧
      ∀ (c : Checker) typed, c.expr (.compound .add t e) = .ok typed ↔
        c.expr (.writtenOut .add t e) = .ok typed := by
  intro program t e
  obtain ⟨a, ha, hload⟩ : ∃ a, Visited 8 9 program (.new ⟨[], []⟩ .unlimited) a ∧
      a.machine.store.load ⟨1, "t", []⟩ = .ok (.array .string [.string "a", .string "b"]) :=
    ⟨_, ((Visited.start.enter .block).enter (.tail rfl)).enter (.tail rfl),
      by with_unfolding_all rfl⟩
  have hr := Reached.moment ha
  have ht : t.Inert := ⟨trivial, trivial⟩
  have he : e.Inert := ⟨trivial, trivial, trivial⟩
  exact ⟨a.machine, a.origins, .new _ _, hr, ht, he, hload,
    hr.compound_as_written_out (.new _ _) .add ht he⟩

end Offside
