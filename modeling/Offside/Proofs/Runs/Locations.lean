import Offside.Proofs.Execution.Placing
import Offside.Proofs.Runs.Coverage

/-!
Where a run goes wrong. A fault is raised by one statement of the run, the innermost one that ends
with it, and its location is that of this statement.
-/

namespace Offside

/-- The statement of the moment ends with the fault `f`. -/
inductive Moment.Faults (limit : Nat) (f : RuntimeFault) : Moment → Prop
  | stmt (h : stmt.exec limit n m = .fault f m') : Faults limit f ⟨n, .stmt stmt, p, m, o⟩

/-- The statement of the moment raises the fault `f` itself: no statement that is nested in it ends
with `f`, and none in the body of a function that is called meanwhile. The repetitions of a loop are
the loop itself, and only what is inside has fewer steps left. -/
structure Moment.Raises (limit : Nat) (f : RuntimeFault) (a : Moment) : Prop where
  faults : a.Faults limit f
  own : ∀ b, Entered limit a b → b.steps < a.steps → ¬b.Faults limit f

/-- The same computation, but where it would end with the fault `f`, it stops without a result. -/
def Exec.without {α : Type} (f : RuntimeFault) (x : Exec α) : Exec α := fun m =>
  match x m with
  | .fault g m' => if g = f then .exhausted else .fault g m'
  | outcome => outcome

/-- The meaning of an expression, when the fault `f` is let out of no statement. -/
def Expr.evalWithout (limit : Nat) (f : RuntimeFault) : Nat → Expr → Exec Evaluated
  | 0, _ => .exhausted
  | n + 1, e =>
    Exec.evalStep limit (Expr.evalWithout limit f n) (fun stmt => (stmt.exec limit n).without f) e

section

variable {limit : Nat} {f : RuntimeFault}

theorem Exec.without_spares {α : Type} (x : Exec α) : (x.without f).Spares f := by
  intro m
  apply Ends.intro
  · intro a m' _
    trivial
  · rintro g m' h rfl
    unfold without at h
    split at h
    · split at h
      · cases h
      · case isFalse hg =>
        cases h
        exact hg rfl
    · case h_2 hx => exact hx _ _ h

theorem Exec.without_eq {α : Type} {x : Exec α} {m : Machine} (h : ∀ m', x m ≠ .fault f m') :
    x.without f m = x m := by
  unfold without
  split
  · case h_1 g m' hx =>
    rw [hx, if_neg]
    rintro rfl
    exact h m' hx
  · rfl

theorem Expr.evalWithout_placed (n : Nat) (e : Expr) : (e.evalWithout limit f n).Placed f := by
  induction n generalizing e with
  | zero => exact fun _ => .exhausted
  | succ n ih =>
    exact Exec.Placed.closed.evalStep ih (Exec.placed_frame fun _ => Exec.without_spares _) e

/-- Where no statement ends with the fault, nothing is withheld. -/
theorem Expr.evalWithout_eq {a : Moment} (n k : Nat) (hn : n ≤ k)
    (h : ∀ b, Entered limit a b → b.steps < k → ¬b.Faults limit f) {e : Expr} {p : Position}
    {m : Machine} {o : Origins} (he : Entered limit a ⟨n, .expr e, p, m, o⟩) :
    e.evalWithout limit f n m = e.eval limit n m := by
  induction n generalizing e p m o with
  | zero => rfl
  | succ n ih =>
    have agrees : Agrees limit n (Expr.evalWithout limit f n)
        (fun stmt => (stmt.exec limit n).without f) ⟨n + 1, .expr e, p, m, o⟩ := by
      constructor
      · intro e' p' m' o' hb
        exact ih (Nat.le_of_succ_le hn) (he.trans hb)
      · intro stmt p' m' o' hb
        exact Exec.without_eq fun m'' hs => h _ (he.trans hb) hn (.stmt hs)
    exact agrees.evalStep

/-- A statement that raises a fault itself raises it too when no other statement may. -/
theorem Moment.Raises.location {n : Nat} {stmt : Stmt} {p : Position} {m : Machine} {o : Origins}
    (h : Raises limit f ⟨n, .stmt stmt, p, m, o⟩) : f.location = some stmt.loc := by
  obtain ⟨hs⟩ := h.faults
  cases n with
  | zero => cases hs
  | succ n =>
    have agrees : Agrees limit n (Expr.evalWithout limit f n)
        (fun stmt => (stmt.exec limit n).without f) ⟨n + 1, .stmt stmt, p, m, o⟩ := by
      constructor
      · intro e p' m' o' hb
        exact Expr.evalWithout_eq n (n + 1) (Nat.le_succ n) h.own hb
      · intro stmt' p' m' o' hb
        exact Exec.without_eq fun m'' hs' => h.own _ hb (Nat.lt_succ_self n) (.stmt hs')
    have placed : ∀ e, (Expr.evalWithout limit f n e).Placed f := Expr.evalWithout_placed n
    have spares : ∀ stmt : Stmt, ((stmt.exec limit n).without f).Spares f :=
      fun stmt => Exec.without_spares _
    exact (Exec.execStep_ends placed spares n stmt m).of_fault (agrees.execStep.trans hs) rfl

/-- Of the statements that end with a fault, the innermost one raises it. -/
theorem Moment.Faults.exists_raises {a : Moment} (h : a.Faults limit f) :
    ∃ b, Entered limit a b ∧ b.Raises limit f := by
  induction hn : a.steps using Nat.strongRecOn generalizing a with
  | _ n ih =>
    by_cases hinside : ∃ b, Entered limit a b ∧ b.steps < a.steps ∧ b.Faults limit f
    · obtain ⟨b, hb, hlt, hf⟩ := hinside
      obtain ⟨c, hc, hr⟩ := ih b.steps (hn ▸ hlt) hf rfl
      exact ⟨c, hb.trans hc, hr⟩
    · exact ⟨a, .refl, h, fun b hb hlt hf => hinside ⟨b, hb, hlt, hf⟩⟩

/-- A block does not end with a fault unless a statement does. -/
theorem Block.exists_faults {n : Nat} {stmts : Block} {p : Position} {m m' : Machine} {o : Origins}
    (h : Exec.block (Stmt.exec limit n) stmts m = .fault f m') :
    ∃ b, Entered limit ⟨n, .block stmts, p, m, o⟩ b ∧ b.Faults limit f := by
  by_contra hnone
  have agrees : Agrees limit n (Expr.eval limit n) (fun stmt => (stmt.exec limit n).without f)
      ⟨n, .block stmts, p, m, o⟩ := by
    constructor
    · intro e p' m' o' hb
      rfl
    · intro stmt p' m' o' hb
      exact Exec.without_eq fun m'' hs => hnone ⟨_, hb, .stmt hs⟩
  have hspares := Exec.spares_block (fun stmt => Exec.without_spares (f := f) (stmt.exec limit n))
    stmts m
  exact hspares.of_fault (agrees.block.trans h) rfl

theorem Machine.run_raised {steps : Nat} {program : Block} {m m' : Machine}
    (h : m.run limit steps program = .fault f m') : f.cause = .output .flush ∨
      ∃ a, Visited limit steps program m a ∧ a.Raises limit f := by
  unfold run at h
  split at h
  · unfold Exec.flush at h
    split at h
    · cases h
    · cases h
      exact .inl rfl
  · case h_2 g m₁ hm =>
    cases h
    obtain ⟨b, hb, hf⟩ := Block.exists_faults (p := ⟨.program, 0⟩) (o := #[[]]) hm
    obtain ⟨c, hc, hr⟩ := hf.exists_raises
    exact .inr ⟨c, Visited.start.entered (hb.trans hc), hr⟩
  · cases h

end

/-- A fault that a statement raises itself has the location of this statement, whatever was executed
within it before. And whatever fault a run ends with was raised by one of its statements, unless it
is only that what was written could not be flushed. -/
theorem faults_are_located (limit : Nat) (f : RuntimeFault) :
    (∀ n stmt p m o, (Moment.mk n (.stmt stmt) p m o).Raises limit f →
      f.location = some stmt.loc) ∧
    ∀ steps program m m', Machine.run limit steps program m = .fault f m' →
      f.cause = .output .flush ∨ ∃ n stmt p m₁ o,
        Visited limit steps program m ⟨n, .stmt stmt, p, m₁, o⟩ ∧
          (Moment.mk n (.stmt stmt) p m₁ o).Raises limit f := by
  constructor
  · intro n stmt p m o h
    exact h.location
  · intro steps program m m' h
    obtain hflush | ⟨a, ha, hr⟩ := Machine.run_raised h
    · exact .inl hflush
    · obtain ⟨hs⟩ := hr.faults
      exact .inr ⟨_, _, _, _, _, ha, hr⟩

/-- The second time the condition of a loop is evaluated, the function in it returns nothing. -/
theorem faults_are_located_in_loop :
    let program : Block := [.declare ⟨1, 1⟩ "x" none (some (.boolean true)),
      .define ⟨2, 1⟩ "more" [] .boolean
        [.cond ⟨3, 3⟩ (.identifier "x") [.return ⟨4, 5⟩ (some (.boolean true))] none],
      .while ⟨5, 1⟩ (.call "more" [])
        [.expr ⟨6, 3⟩ (.binary (.identifier "x") (.assign none) (.boolean false))]]
    let m : Machine := .new ⟨[], []⟩ .unlimited
    let f : RuntimeFault := ⟨.missingResult, some ⟨5, 1⟩⟩
    ∃ n stmt p m₁ o m', m.run 8 16 program = .fault f m' ∧
      Visited 8 16 program m ⟨n, .stmt stmt, p, m₁, o⟩ ∧
      (Moment.mk n (.stmt stmt) p m₁ o).Raises 8 f ∧ f.location = some stmt.loc := by
  intro program m f
  have hr : (m.run 8 16 program).fault? = some f := by decide +kernel
  obtain ⟨m', hr⟩ := Outcome.eq_of_fault? hr
  obtain ⟨hlocation, hraised⟩ := faults_are_located 8 f
  obtain hflush | ⟨n, stmt, p, m₁, o, hv, hf⟩ := hraised 16 program m m' hr
  · cases hflush
  · exact ⟨n, stmt, p, m₁, o, m', hr, hv, hf, hlocation n stmt p m₁ o hf⟩

end Offside
