import Offside.Proofs.Execution.Likeness
import Offside.Proofs.Runs.Restoration
import Offside.Proofs.Scope.Hidden

/-!
Calls touch only what is visible in the scope of the function. The locals of the callers stand on
the same stack of levels as those of the call; but whatever is executed in the call, and whatever it
calls in turn, sees nothing of them.
-/

namespace Offside

/-- The machines differ in nothing but the values of variables that are not visible in the scope. -/
structure Machine.AgreeIn (scope : Scope) (m m' : Machine) : Prop where
  store : m.store.AgreeIn scope m'.store
  input : m'.input = m.input
  output : m'.output = m.output
  depth : m'.depth = m.depth
  location : m'.location = m.location

/-- What is hidden in both runs is taken from the second one. -/
def Likeness.hidden (scope : Scope) (s : Store) : Likeness where
  recast := .beyond scope s
  outputs o o' := o' = o
  lax := False
  write text h := .inl ⟨by rw [h], by rw [h]⟩

namespace Outcome.Both

/-- A computation that is compared with itself. -/
theorem diagonal {α : Type} {R : Machine → Machine → Prop} {x : Exec α} {m : Machine}
    (h : Both R False (x m) (x m)) : x.Ends m (fun _ m₁ => R m₁ m₁) fun _ m₁ => R m₁ m₁ := by
  unfold Exec.Ends
  generalize x m = outcome at h
  cases outcome with
  | done a m₁ =>
    cases h with
    | done _ h => exact h
    | lost h => exact h.elim
  | fault f m₁ =>
    cases h with
    | fault _ h => exact h
    | lost h => exact h.elim
  | exhausted => trivial

end Outcome.Both

namespace Machine

open Exec Outcome

variable {scope : Scope} {m m' : Machine}

theorem AgreeIn.refl (scope : Scope) (m : Machine) : m.AgreeIn scope m :=
  ⟨.refl scope m.store, rfl, rfl, rfl, rfl⟩

/-- The frame of a call is alike in both machines, and in the end the second one has the hidden
values that it had before. -/
theorem AgreeIn.call (ha : m.AgreeIn scope m') (hv : m.store.Valid)
    (hd : scope.level < m.store.depth) (limit n : Nat) (name : String) (f : Function)
    (values : List Value) :
    Both (fun m₁ m₁' => m₁.AgreeIn scope m₁' ∧ m'.store.KeepsHidden scope m₁'.store) False
      (inFrame scope (body (Stmt.exec limit n) name f values) m)
      (inFrame scope (body (Stmt.exec limit n) name f values) m') := by
  let l := Likeness.hidden scope m'.store
  have hm : l.Matches m m' :=
    ⟨(Recast.beyond_store hv ha.store).symm, ha.input, ha.output, ha.depth, ha.location⟩
  have hbody := Likeness.Likewise.respected.body (l.exec_likewise limit n) name f values
  refine Both.ends (hbody.inFrame hm (hv.newFrame hd) (Recast.beyond_spares hv ha.store hd))
    (hbody.contained.inFrame scope m) fun {m₁ m₁'} h₁ hk => ?_
  rw [h₁.store]
  refine ⟨⟨?_, h₁.input, h₁.outputs, h₁.depth, h₁.location⟩, ?_⟩
  · rw [h₁.store]
    exact Recast.agreeIn_beyond ha.store hk.shape
  · exact Recast.keepsHidden_beyond hv ha.store hk.shape

end Machine

section Runs

variable {limit steps : Nat} {program : Block} {m₀ m : Machine} {o : Origins}

theorem Reached.valid (hm : m₀.Idle) {s : Store} (h : Reached limit steps program m₀ s o) :
    s.Valid := by
  have he := Expr.eval_tidy limit
  have hs := Stmt.exec_contained limit
  cases h with
  | moment h => exact (h.within hm).valid
  | exprDone h hd => exact ((he _ _ _).of_done hd).valid (h.within hm).valid
  | exprFault h hd => exact ((he _ _ _).of_fault hd).valid (h.within hm).valid
  | stmtDone h hd => exact ((hs _ _ _ (h.within hm).opened).of_done hd).valid (h.within hm).valid
  | stmtFault h hd => exact ((hs _ _ _ (h.within hm).opened).of_fault hd).valid (h.within hm).valid
  | blockDone h hd =>
    exact ((Exec.tidy_block (hs _) _ _).of_done hd).valid (h.within hm).valid
  | blockFault h hd =>
    exact ((Exec.tidy_block (hs _) _ _).of_fault hd).valid (h.within hm).valid

/-- Calls touch only variables that are visible in the scope of the function. In whatever store a
run has come to, a function that is found there is called from two machines that differ only in
the values of other variables: then both calls come to the same value or the same fault, or neither
ends; input, output and the variables that are visible in the scope are the same afterwards; and
whatever is not visible in it is as before in both machines. -/
theorem Reached.calls_are_isolated (hm : m₀.Idle)
    (hr : Reached limit steps program m₀ m.store o) {name : String} {f : Function} {scope : Scope}
    (hf : m.store.lookupFunction name = .ok (f, scope)) {m' : Machine}
    (ha : m.AgreeIn scope m') (n : Nat) (values : List Value) :
    Outcome.Both
      (fun m₁ m₁' => m₁.AgreeIn scope m₁' ∧ m.store.KeepsHidden scope m₁.store ∧
        m'.store.KeepsHidden scope m₁'.store) False
      (Exec.inFrame scope (Exec.body (Stmt.exec limit n) name f values) m)
      (Exec.inFrame scope (Exec.body (Stmt.exec limit n) name f values) m') := by
  have hv := hr.valid hm
  have hd := Store.lt_depth_of_lookupFunction hv hf
  have hself := ((Machine.AgreeIn.refl scope m).call hv hd limit n name f values).diagonal
  exact (ha.call hv hd limit n name f values).ends hself fun h hk => ⟨h.1, hk.2, h.2⟩

/-- A function does not see the variable that is declared after it, and which has another value in
the second machine. -/
theorem Reached.calls_are_isolated_from_later_variables :
    ∃ (program : Block) (m m' : Machine) (o : Origins) (f : Function) (scope : Scope),
      (Machine.new ⟨[], []⟩ .unlimited).Idle ∧
      Reached 8 9 program (.new ⟨[], []⟩ .unlimited) m.store o ∧
      m.store.lookupFunction "f" = .ok (f, scope) ∧ m.AgreeIn scope m' ∧
      m.store.load ⟨1, "y", []⟩ = .ok (.boolean false) ∧
      m'.store.load ⟨1, "y", []⟩ = .ok (.boolean true) ∧
      Outcome.Both
        (fun m₁ m₁' => m₁.AgreeIn scope m₁' ∧ m.store.KeepsHidden scope m₁.store ∧
          m'.store.KeepsHidden scope m₁'.store) False
        (Exec.inFrame scope (Exec.body (Stmt.exec 8 5) "f" f [.boolean true]) m)
        (Exec.inFrame scope (Exec.body (Stmt.exec 8 5) "f" f [.boolean true]) m') := by
  let program : Block := [.declare ⟨1, 1⟩ "x" (some .boolean) none,
    .define ⟨2, 1⟩ "f" [⟨"v", .boolean⟩] .boolean [
      .expr ⟨3, 3⟩ (.binary (.identifier "x") (.assign none) (.identifier "v")),
      .return ⟨4, 3⟩ (some (.identifier "x"))],
    .declare ⟨5, 1⟩ "y" (some .boolean) none]
  obtain ⟨a, hv, s, hs, f, scope, hf, hload⟩ : ∃ a,
      Visited 8 9 program (.new ⟨[], []⟩ .unlimited) a ∧
      ∃ s, a.machine.store.store ⟨1, "y", []⟩ (.boolean true) = .ok s ∧
      ∃ f scope, a.machine.store.lookupFunction "f" = .ok (f, scope) ∧
        a.machine.store.load ⟨1, "y", []⟩ = .ok (.boolean false) ∧
        s.load ⟨1, "y", []⟩ = .ok (.boolean true) ∧
        s.visibleIn scope = a.machine.store.visibleIn scope :=
    ⟨_, (((Visited.start.enter .block).enter (.tail rfl)).enter (.tail rfl)).enter (.tail rfl),
      _, rfl, _, _, by with_unfolding_all rfl, by with_unfolding_all rfl,
      by with_unfolding_all rfl, by with_unfolding_all rfl⟩
  have hr := Reached.moment hv
  have ha : a.machine.AgreeIn scope { a.machine with store := s } :=
    ⟨⟨(Store.shape_store hs).1, (Store.shape_store hs).2, hload.2.2⟩, rfl, rfl, rfl, rfl⟩
  exact ⟨program, a.machine, _, a.origins, f, scope, .new _ _, hr, hf, ha, hload.1, hload.2.1,
    hr.calls_are_isolated (.new _ _) hf ha 5 [.boolean true]⟩

end Runs

end Offside
