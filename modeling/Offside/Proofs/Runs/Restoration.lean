import Offside.Proofs.Execution.Targets
import Offside.Proofs.Runs.Coverage
import Offside.Proofs.Runs.Preservation

/-!
What stays put while a program runs, checked or not. However an expression or a statement ends, the
levels are those of before, and calls are nested as deeply as before; in between they are never
nested more deeply than the limit allows. So a slot that was found before something else is
evaluated belongs to the same variable afterwards.
-/

namespace Offside

namespace Store

/-- The binding that a slot belongs to, without its value. -/
def bindingAt (s : Store) (slot : Slot) : Option Binding :=
  s.shape[slot.level]?.bind (·.find? slot.name)

/-- The slot belongs to a variable that is there. -/
def Holds (s : Store) (slot : Slot) : Prop :=
  ∃ b v, s.bindingAt slot = some b ∧ b.entry = .variable v

variable {s t : Store} {slot : Slot}

theorem bindingAt_of_shape (h : t.shape = s.shape) (slot : Slot) :
    t.bindingAt slot = s.bindingAt slot := by
  unfold bindingAt
  rw [h]

/-- A slot in sight is that of a variable. -/
theorem Shows.holds (h : s.Shows slot) : s.Holds slot := by
  obtain ⟨b, v, hf, hv⟩ := h.find?
  obtain ⟨level, hl, hb⟩ := find?_some hf
  refine ⟨b.erase, ⟨v.ty, none⟩, ?_, ?_⟩
  · simp only [bindingAt, shape, Array.getElem?_map, hl, Option.map_some, Option.bind_some,
      Level.find?_erase, hb]
  · simp [Binding.erase, Entry.erase, hv]

end Store

/-- A slot that was found before an expression is evaluated belongs to the same binding
afterwards. -/
theorem Expr.eval_keeps_binding {limit n : Nat} {lhs rhs : Expr} {m m₁ m₂ : Machine} {slot : Slot}
    {ev : Evaluated} (hl : lhs.eval limit n m = .done (.slot slot) m₁)
    (hr : rhs.eval limit n m₁ = .done ev m₂) :
    ∃ b v, m₁.store.bindingAt slot = some b ∧ m₂.store.bindingAt slot = some b ∧
      b.entry = .variable v := by
  obtain ⟨b, v, hb, hv⟩ := ((lhs.eval_locates limit n m).of_done hl slot rfl).holds
  have hshape := ((rhs.eval_tidy limit n m₁).of_done hr).shape
  exact ⟨b, v, hb, by rw [Store.bindingAt_of_shape hshape, hb], hv⟩

/-- There is a level to bind names on, and calls are not nested too deeply. -/
structure Machine.Within (limit : Nat) (m : Machine) : Prop where
  valid : m.store.Valid
  opened : 0 < m.store.depth
  nested : m.depth ≤ limit

/-- The second machine is within the limit and not outside of the calls of the first. -/
structure Machine.Deepens (limit : Nat) (m m' : Machine) : Prop where
  within : m'.Within limit
  inside : m.depth ≤ m'.depth

namespace Machine

variable {limit : Nat} {m m' m'' : Machine}

theorem Within.deepens (h : m.Within limit) : m.Deepens limit m :=
  ⟨h, Nat.le_refl _⟩

theorem Within.keeps (h : m.Within limit) (hk : m.Keeps m') : m.Deepens limit m' :=
  ⟨⟨hk.valid h.valid, hk.depth_pos h.opened, hk.depth ▸ h.nested⟩, Nat.le_of_eq hk.depth.symm⟩

theorem Within.keepsOuter (h : m.Within limit) (hk : m.KeepsOuter m') : m.Deepens limit m' :=
  ⟨⟨hk.valid h.valid, by rw [hk.levels]; exact h.opened, hk.depth ▸ h.nested⟩,
    Nat.le_of_eq hk.depth.symm⟩

theorem Deepens.trans (h : m.Deepens limit m') (h' : m'.Deepens limit m'') :
    m.Deepens limit m'' :=
  ⟨h'.within, Nat.le_trans h.inside h'.inside⟩

theorem Within.newLevel (h : m.Within limit) :
    m.Deepens limit { m with store := m.store.newLevel } :=
  ⟨⟨h.valid.newLevel, by simp, h.nested⟩, Nat.le_refl _⟩

theorem Within.register (h : m.Within limit) {name : String} {entry : Entry} {s : Store}
    (hs : m.store.register name entry = .ok s) : m.Deepens limit { m with store := s } := by
  obtain ⟨hn, rfl⟩ := Store.register_ok h.opened hs
  exact ⟨⟨h.valid.extend h.opened hn entry, by simpa using h.opened, h.nested⟩, Nat.le_refl _⟩

end Machine

section Runs

variable {limit steps : Nat} {program : Block} {m₀ : Machine} {a : Moment}

/-- A call is entered only below the limit, and nothing else nests calls. -/
theorem Machine.Within.along (limit : Nat) :
    Along limit fun m m' => m.Within limit → m.Deepens limit m' where
  refl _ h := h.deepens
  trans h h' hw := (h hw).trans (h' (h hw).within)
  located _ _ h := h.keeps (.of_store rfl rfl)
  eval hd h := h.keeps ((Expr.eval_tidy limit _ _ _).of_done hd)
  exec hd h := h.keepsOuter ((Stmt.exec_contained limit _ _ _ h.opened).of_done hd)
  block hd h := h.keeps ((Exec.tidy_block (Stmt.exec_contained limit _) _ _).of_done hd)
  item {n name _ _ stmts m _} hd h := by
    have hblock := Exec.tidy_block (Stmt.exec_contained limit n) stmts
    exact h.keeps ((Exec.tidy_item hblock name _ m).of_done hd)
  newLevel _ h := h.newLevel
  register hr h := h.register hr
  frame {n name args f scope values m m'} hf hargs hdepth h := by
    have hk := (Exec.Tidy.closed.evalAll (Expr.eval_tidy limit n) args m).of_done hargs
    rw [← Store.lookupFunction_of_shape hk.shape] at hf
    have hv := hk.valid h.valid
    refine ⟨⟨hv.newFrame (Store.lt_depth_of_lookupFunction hv hf), by simp, hdepth⟩, ?_⟩
    have := hk.depth
    dsimp only at this ⊢
    omega

theorem Visited.within (hm : m₀.Idle) (h : Visited limit steps program m₀ a) :
    a.machine.Within limit := by
  obtain ⟨input, output, hk⟩ := hm.keeps
  have hd : m₀.depth = 0 := hk.depth
  have hw : m₀.Within limit := ⟨hk.valid .new, hk.depth_pos Nat.one_pos, by omega⟩
  exact ((Machine.Within.along limit).visited h hw).within

/-- A statement adds what it declares, and only if the next one follows. -/
theorem Stmt.exec_restores (limit n : Nat) (stmt : Stmt) (m : Machine) (hm : 0 < m.store.depth) :
    (stmt.exec limit n).Ends m
      (fun signal m' => match signal with
        | .next => m.Leaves stmt.declares? m'
        | .return _ => m.Keeps m')
      fun _ m' => m.Keeps m' := by
  have hleaves := stmt.exec_leaves limit n m hm
  cases hd : stmt.declares? with
  | none =>
    rw [hd] at hleaves
    exact hleaves.mono (fun signal _ hk => by cases signal <;> exact hk) fun _ _ hk => hk
  | some name =>
    rw [hd] at hleaves
    have hnext := Stmt.exec_next (by rw [hd]; rfl) limit n m
    exact (hleaves.and hnext).mono (fun signal m' h => by rw [h.2]; exact h.1) fun _ _ h => h.1

/-- From wherever a run has come to, whatever is evaluated or executed, and however it ends: the
levels with their links and bindings are those of before, up to the values of variables and to
what a statement declares on the innermost level; and calls are nested as before, and never beyond
the limit on the way. A slot that was found before something else is evaluated belongs to the same
binding afterwards. -/
theorem Visited.levels_are_restored (hm : m₀.Idle) (hv : Visited limit steps program m₀ a) :
    (∀ n e, (Expr.eval limit n e).Ends a.machine (fun _ m' => a.machine.Keeps m')
        fun _ m' => a.machine.Keeps m') ∧
      (∀ n stmt, (Stmt.exec limit n stmt).Ends a.machine
        (fun signal m' => match signal with
          | .next => a.machine.Leaves stmt.declares? m'
          | .return _ => a.machine.Keeps m')
        fun _ m' => a.machine.Keeps m') ∧
      (∀ n task p o b, Entered limit ⟨n, task, p, a.machine, o⟩ b →
        a.machine.depth ≤ b.machine.depth ∧ b.machine.depth ≤ limit) ∧
      ∀ n lhs rhs slot m₁ ev m₂, Expr.eval limit n lhs a.machine = .done (.slot slot) m₁ →
        Expr.eval limit n rhs m₁ = .done ev m₂ →
        ∃ b v, m₁.store.bindingAt slot = some b ∧ m₂.store.bindingAt slot = some b ∧
          b.entry = .variable v := by
  have hw := hv.within hm
  refine ⟨fun n e => e.eval_tidy limit n a.machine, fun n stmt => ?_, fun n task p o b hb => ?_,
    fun n lhs rhs slot m₁ ev m₂ hl hr => Expr.eval_keeps_binding hl hr⟩
  · exact stmt.exec_restores limit n a.machine hw.opened
  · have hd := (Machine.Within.along limit).entered hb hw
    exact ⟨hd.inside, hd.within.nested⟩

/-- A variable is still the one that was found for an assignment when the call on the right is
over. -/
theorem Visited.levels_are_restored_in_assignment :
    ∃ (program : Block) (m₀ : Machine) (a : Moment) (slot : Slot) (m₁ : Machine) (ev : Evaluated)
      (m₂ : Machine) (b : Binding), m₀.Idle ∧ Visited 8 6 program m₀ a ∧
      a.task = .expr (.binary (.identifier "x") (.assign none) (.call "f" [])) ∧
      Expr.eval 8 5 (.identifier "x") a.machine = .done (.slot slot) m₁ ∧
      Expr.eval 8 5 (.call "f" []) m₁ = .done ev m₂ ∧ m₁.store.bindingAt slot = some b ∧
      m₂.store.bindingAt slot = some b := by
  let program : Block := [.declare ⟨1, 1⟩ "x" (some .boolean) none,
    .define ⟨2, 1⟩ "f" [] .boolean [.return ⟨3, 3⟩ (some (.identifier "x"))],
    .expr ⟨4, 1⟩ (.binary (.identifier "x") (.assign none) (.call "f" []))]
  obtain ⟨a, hv, ha, slot, m₁, ev, m₂, hl, hr⟩ : ∃ a,
      Visited 8 6 program (.new ⟨[], []⟩ .unlimited) a ∧
      a.task = .expr (.binary (.identifier "x") (.assign none) (.call "f" [])) ∧
      ∃ slot m₁ ev m₂, Expr.eval 8 5 (.identifier "x") a.machine = .done (.slot slot) m₁ ∧
        Expr.eval 8 5 (.call "f" []) m₁ = .done ev m₂ :=
    ⟨_, ((((Visited.start.enter .block).enter (.tail rfl)).enter (.tail rfl)).enter .head).enter
      (.operand rfl), rfl, _, _, _, _, by with_unfolding_all rfl, by with_unfolding_all rfl⟩
  obtain ⟨b, v, hb, hb', -⟩ := (hv.levels_are_restored (.new _ _)).2.2.2 _ _ _ _ _ _ _ hl hr
  exact ⟨program, _, a, slot, m₁, ev, m₂, b, .new _ _, hv, ha, hl, hr, hb, hb'⟩

end Runs

end Offside
