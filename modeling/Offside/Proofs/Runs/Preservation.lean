import Offside.Proofs.Runs.Simulation

/-!
Types at run time. All variables that are alive in a run have values of the types that the checker
gave them, and what an expression comes to is of the type and the kind that the checker gave it.
-/

namespace Offside

/-- A declaration does not return. -/
theorem Stmt.exec_next {stmt : Stmt} (h : stmt.declares?.isSome) (limit n : Nat) (m : Machine) :
    (stmt.exec limit n).Ends m (fun signal _ => signal = .next) fun _ _ => True := by
  cases n with
  | zero => exact .exhausted
  | succ n =>
    refine .bind (.setLocation ?_)
    match stmt with
    | .declare _ name ty initializer =>
      refine .bind (.intro (fun value m₁ _ => ?_) fun _ _ _ => trivial)
      refine .bind (.intro (fun a m₂ _ => ?_) fun _ _ _ => trivial)
      exact .bind (.intro (fun _ _ _ => .pure rfl) fun _ _ _ => trivial)
    | .define .. => exact .bind (.intro (fun _ _ _ => .pure rfl) fun _ _ _ => trivial)

/-- What the checker expects of a store while a program runs. -/
structure Store.Declared (program : Block) (σ : Store) (o : Origins) : Prop where
  typed : σ.WellTyped
  registered : ∀ (i : Nat) level, σ.levels[i]? = some level → ∀ b ∈ level.bindings,
    ∃ d, o.find? i b.name = some d ∧ program.Registers d b.name b.entry.erase

theorem Tracks.declared {program : Block} {concrete : Prop} {s σ : Store} {os o : Origins}
    (h : Tracks program concrete s os σ o) : σ.Declared program o :=
  ⟨h.ready.typed, h.registered⟩

theorem Moment.Accepted.declared {program : Block} {concrete : Prop} {a : Moment}
    (h : a.Accepted program concrete) : a.machine.store.Declared program a.origins := by
  cases h with
  | expr h | args h | call h | stmt h | seq h | each h => exact h.tracks.declared
  | block _ h | bind h | item _ h => exact h.declared

/-- The stores of a run of an accepted program are as the checker expects them. -/
theorem Reached.declared {program : Block} {limit steps : Nat} {m₀ : Machine} {σ : Store}
    {o : Origins} (hc : program.check = .ok ()) (hm : m₀.Idle)
    (h : Reached limit steps program m₀ σ o) : σ.Declared program o := by
  have accepted : ∀ {a}, Visited limit steps program m₀ a → a.Accepted program False :=
    fun hv => hv.accepted False hc nofun hm
  have hs := fun n => Stmt.exec_sound False limit n
  cases h with
  | moment h => exact (accepted h).declared
  | exprDone h he =>
    cases accepted h with
    | expr hat ht => exact (hat.eval ht he).tracks.declared
  | exprFault h he =>
    cases accepted h with
    | expr hat ht =>
      have hf := (Expr.eval_sound False limit _ _ _ _ _ ht hat.ready).of_fault he
      exact (hat.advance hf.advances).tracks.declared
  | @stmtDone n stmt p m o signal m' h hd =>
    cases accepted h with
    | stmt hat hr ht hconcrete =>
      have hkeeps := (Stmt.exec_leaves limit n stmt m hat.ready.running).of_done hd
      have hleads := (hs n stmt _ _ _ m ht hconcrete hat.ready).of_done hd
      cases hdeclares : stmt.declares? with
      | none =>
        unfold Origins.declare
        rw [hdeclares] at hkeeps ⊢
        exact (hat.advance ⟨hkeeps, hleads.typed⟩).tracks.declared
      | some name =>
        obtain rfl := (Stmt.exec_next (by rw [hdeclares]; rfl) limit n m).of_done hd
        exact (hat.tracks.statement hat.site_eq hr ht hconcrete hd).declared
  | @stmtFault n stmt p m o f m' h hd =>
    cases accepted h with
    | stmt hat hr ht hconcrete =>
      have hkeeps := (Stmt.exec_leaves limit n stmt m hat.ready.running).of_fault hd
      have hf := (hs n stmt _ _ _ m ht hconcrete hat.ready).of_fault hd
      exact (hat.advance ⟨hkeeps, hf.1⟩).tracks.declared
  | blockDone h hd =>
    cases accepted h with
    | block _ ht hc hconcrete =>
      obtain ⟨ha, -⟩ :=
        (Exec.block_sound (hs _) (Stmt.exec_contained limit _) hc hconcrete ht.ready).of_done hd
      exact (ht.advance ha).declared
  | blockFault h hd =>
    cases accepted h with
    | block _ ht hc hconcrete =>
      have hf :=
        (Exec.block_sound (hs _) (Stmt.exec_contained limit _) hc hconcrete ht.ready).of_fault hd
      exact (ht.advance hf.advances).declared

/-- An expression comes to a slot exactly if the checker says so, and its value is of the type that
the checker says. -/
theorem Block.Located.eval_hasTy {program : Block} {concrete : Prop} {site : Site}
    {p : Position} {m m' : Machine} {o : Origins} {e : Expr} {t : Typed} {ev : Evaluated}
    {limit n : Nat} (h : program.Located concrete site p m.store o)
    (hc : e.check site.store = .ok t) (hne : t.ty ≠ .list .mixed)
    (hd : e.eval limit n m = .done ev m') :
    ((∃ slot, ev = .slot slot) ↔ t.denotes = .slot) ∧
      ∃ v, Exec.valueOf ev m' = .done v m' ∧ v.HasTy t.ty.stored := by
  have hy := (Expr.eval_sound concrete limit n e _ _ m hc h.ready).of_done hd
  have hty := hy.hasTy hne
  cases ev with
  | slot slot =>
    obtain ⟨hdenotes, hslot⟩ := Evaluated.hasTy_slot hty
    obtain ⟨v, hv⟩ := hy.loads slot rfl
    refine ⟨iff_of_true ⟨slot, rfl⟩ hdenotes, v, ?_, ?_⟩
    · unfold Exec.valueOf Exec.load Exec.lookup
      simp only [hv]
    · obtain ⟨w, hw, hwt⟩ | ⟨hw, -⟩ := hy.advances.typed.load hslot
      · rw [hv] at hw
        cases hw
        rw [Ty.stored_of_isPlain hwt.isPlain]
        exact hwt
      · rw [hv] at hw
        cases hw
  | value v =>
    obtain ⟨hdenotes, hv⟩ := Evaluated.hasTy_value hty
    refine ⟨iff_of_false nofun ?_, v, rfl, hv⟩
    rw [hdenotes]
    nofun

/-- In a run of an accepted program, every variable of every level has a value of its type, which
is the type that the checker gave to the variable at its declaration. And an expression that comes
to anything comes to a slot or to a value as the checker says, and what it denotes is of the type
that the checker says; lists become arrays then. -/
theorem types_are_preserved {program : Block} {limit steps : Nat} {m₀ : Machine}
    (hc : program.check = .ok ()) (hm : m₀.Idle) :
    (∀ σ o, Reached limit steps program m₀ σ o → ∀ (i : Nat) level, σ.levels[i]? = some level →
      ∀ b ∈ level.bindings, ∀ v, b.entry = .variable v →
        (∃ value, v.value = some value ∧ value.ty = v.ty ∧ value.HasTy v.ty) ∧
          ∃ d, o.find? i b.name = some d ∧
            program.Registers d b.name (.variable ⟨v.ty, none⟩)) ∧
      ∀ n e p m o, Visited limit steps program m₀ ⟨n, .expr e, p, m, o⟩ →
        ∃ site t, program.site? p = some site ∧ e.check site.store = .ok t ∧
          ∀ ev m', e.eval limit n m = .done ev m' → t.ty ≠ .list .mixed →
            ((∃ slot, ev = .slot slot) ↔ t.denotes = .slot) ∧
              ∃ v, Exec.valueOf ev m' = .done v m' ∧ v.ty = t.ty.stored ∧
                v.HasTy t.ty.stored := by
  constructor
  · intro σ o h i level hl b hb v hv
    have hd := h.declared hc hm
    obtain ⟨value, hvalue, hty⟩ := hd.typed i level hl b hb v hv
    obtain ⟨d, hd, hr⟩ := hd.registered i level hl b hb
    rw [hv] at hr
    exact ⟨⟨value, hvalue, hty.ty_eq, hty⟩, d, hd, hr⟩
  · intro n e p m o h
    cases h.accepted False hc nofun hm with
    | @expr _ _ _ _ _ site t hat ht =>
      refine ⟨site, t, hat.site_eq, ht, fun ev m' hd hne => ?_⟩
      obtain ⟨hkind, v, hv, hty⟩ := hat.eval_hasTy ht hne hd
      exact ⟨hkind, v, hv, hty.ty_eq, hty⟩

/-- An empty list in a list is stored as an array of strings when the variable is one of arrays of
strings. -/
theorem types_are_preserved_in_nested_list :
    ∃ (program : Block) (σ : Store) (o : Origins) (level : Level) (b : Binding) (v : Variable),
      program.check = .ok () ∧ Reached 8 4 program (.new ⟨[], []⟩ .unlimited) σ o ∧
      σ.levels[1]? = some level ∧ b ∈ level.bindings ∧ b.entry = .variable v ∧
      v.ty = .array (.array .string) ∧ ∃ value, v.value = some value ∧ value.HasTy v.ty := by
  let program : Block := [.declare ⟨1, 1⟩ "a" (some (.array (.array .string)))
    (some (.list [.list [.string "s"], .list []]))]
  have hc : program.check = .ok () := by with_unfolding_all rfl
  have h : Reached 8 4 program (.new ⟨[], []⟩ .unlimited) _ _ :=
    .stmtDone ((Visited.start.enter .block).enter .head) rfl
  have hp := (types_are_preserved hc (.new _ _)).1 _ _ h 1 _ rfl _ List.mem_cons_self _ rfl
  obtain ⟨⟨value, hvalue, -, hty⟩, -⟩ := hp
  exact ⟨program, _, _, _, _, _, hc, h, rfl, List.mem_cons_self, rfl, rfl, value, hvalue, hty⟩

end Offside
