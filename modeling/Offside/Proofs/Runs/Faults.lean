import Offside.Proofs.Runs.Overruns
import Offside.Proofs.Runs.Simulation

/-!
What can still go wrong when a checked program runs.
-/

namespace Offside

/-- A slot that is accessed was part of a variable when it was found, and still is then. -/
theorem Moment.Accepted.accesses {program : Block} {concrete : Prop} {limit : Nat} {a : Moment}
    {σ : Store} {slot : Slot} (h : a.Accepted program concrete) (ha : a.Accesses limit σ slot) :
    σ.WellTyped ∧ ∃ t, σ.SlotTy slot t := by
  cases ha with
  | result hd =>
    cases h with
    | expr hat hc =>
      have hy := (Expr.eval_sound concrete limit _ _ _ _ _ hc hat.ready).of_done hd
      obtain ⟨v, hv⟩ := hy.loads slot rfl
      exact ⟨hy.advances.typed, hy.advances.typed.slotTy_of_load hv⟩
  | left hl hr =>
    cases h with
    | expr hat hc =>
      obtain ⟨left, right, hcl, hcr, -⟩ := Expr.check_binary hc
      have hy := (Expr.eval_sound concrete limit _ _ _ _ _ hcl hat.ready).of_done hl
      obtain ⟨v, hv⟩ := hy.loads slot rfl
      obtain ⟨t, ht⟩ := hy.advances.typed.slotTy_of_load hv
      obtain ⟨ev, hr⟩ := Exec.evalValue_done hr
      have hshape := ((Expr.eval_tidy limit _ _ _).of_done hr).shape
      exact ⟨((hat.eval hcl hl).eval hcr hr).ready.typed, t, ht.of_shape hshape⟩

theorem Block.ofChecked_ok {source : String} {program : Block}
    (h : Block.ofChecked source = .ok program) :
    Block.ofSource source = .ok program ∧ program.check = .ok () := by
  unfold ofChecked at h
  split at h
  · cases h
  · case h_2 parsed hp =>
    split at h
    · cases h
    · case h_2 hc =>
      cases h
      exact ⟨hp, hc⟩

/-- A run of an accepted program ends without a fault or with one that has to be expected. -/
theorem Machine.Idle.run_expected {program : Block} {limit steps : Nat} {m m' : Machine}
    {f : RuntimeFault} (h : m.Idle) (hc : program.check = .ok ())
    (hconcrete : Stmt.AllConcrete program) (hr : m.run limit steps program = .fault f m') :
    f.cause.Expected := by
  unfold run at hr
  split at hr
  · unfold Exec.flush at hr
    split at hr
    · cases hr
    · cases hr
      trivial
  · case h_2 fault m₁ hm =>
    cases hr
    have hready := (h.tracks program True).ready
    have hb := Exec.block_sound (Stmt.exec_sound True limit steps) (Stmt.exec_contained limit steps)
      (Block.checkAll_of_check hc) (fun _ => hconcrete) hready
    exact (hb.of_fault hm).expected trivial
  · cases hr

/-- A program that was read and checked raises no fault of types or names when it runs. An access
that goes out of bounds has an index past the end of an array. -/
theorem faults_are_expected {source : String} {program : Block} {limit steps : Nat} {m : Machine}
    (hc : Block.ofChecked source = .ok program) (hm : m.Idle) :
    (∀ f m', m.run limit steps program = .fault f m' → f.cause.Expected ∧
      (f.cause = .store .outOfBounds → ∃ a σ slot, Visited limit steps program m a ∧
        a.Accesses limit σ slot ∧ σ.Escapes slot)) ∧
      ∀ a σ slot, Visited limit steps program m a → a.Accesses limit σ slot → σ.Escapes slot →
        σ.Overrun slot := by
  obtain ⟨hsource, hcheck⟩ := Block.ofChecked_ok hc
  constructor
  · intro f m' hr
    exact ⟨hm.run_expected hcheck (Block.ofSource_concrete hsource) hr,
      fun hf => Visited.start.overruns (Machine.run_overruns hr hf)⟩
  · intro a σ slot hv ha he
    obtain ⟨hty, t, ht⟩ := (hv.accepted False hcheck nofun hm).accesses ha
    exact hty.overrun ht he

/-- To read where there is no input is a fault that has to be expected. -/
theorem faults_are_expected_at_read :
    ∃ program f m', Block.ofChecked "b : boolean\nread b\n" = .ok program ∧
      (Machine.new ⟨[], []⟩ .unlimited).run 8 8 program = .fault f m' ∧
      f.cause = .input .exhausted ∧ f.cause.Expected := by
  have h : (Block.ofChecked "b : boolean\nread b\n").toOption.bind (fun program =>
      ((Machine.new ⟨[], []⟩ .unlimited).run 8 8 program).cause?) = some (.input .exhausted) := by
    decide +kernel
  obtain ⟨program, hc, hr⟩ := Option.bind_eq_some_iff.mp h
  obtain ⟨f, m', hr, hf⟩ := Outcome.eq_fault hr
  have hc : Block.ofChecked "b : boolean\nread b\n" = .ok program := by
    cases hb : Block.ofChecked "b : boolean\nread b\n" with
    | ok parsed =>
      rw [hb] at hc
      exact congrArg _ (Option.some.inj hc)
    | error failure =>
      rw [hb] at hc
      cases hc
  exact ⟨program, f, m', hc, hr, hf, ((faults_are_expected hc (.new _ _)).1 f m' hr).1⟩

end Offside
