import Offside.Proofs.Runs.Simulation

/-!
A name means the same declaration to the checker and to a running program, wherever the program is
called from and however often.
-/

namespace Offside

/-- The name in the expression, of a variable or of a function, is found in the store as it was
bound by the declaration. -/
inductive Store.Resolves (s : Store) (o : Origins) : Expr → String → Declaration → Prop
  | variable {name : String} {level id : Nat} {v : Variable} {d : Declaration}
      (h : s.find? name = some (level, ⟨name, id, .variable v⟩))
      (ho : o.find? level name = some d) : Resolves s o (.identifier name) name d
  | function {name : String} {args : List Expr} {level id : Nat} {f : Function} {d : Declaration}
      (h : s.find? name = some (level, ⟨name, id, .function f⟩))
      (ho : o.find? level name = some d) : Resolves s o (.call name args) name d

/-- The expression whose name is resolved at a moment. For a call that is before its arguments are
evaluated. -/
def Task.occurrence? : Task → Option Expr
  | .expr (.identifier name) => some (.identifier name)
  | .call name es => some (.call name es)
  | _ => none

namespace Store.Resolves

variable {s : Store} {o : Origins} {name : String} {d : Declaration} {i : Nat} {b : Binding}

theorem of_variable {v : Variable} (hs : s.Valid) (h : s.find? name = some (i, b))
    (hb : b.entry.erase = .variable v) (ho : s.origin? o name = some d) :
    s.Resolves o (.identifier name) name d := by
  obtain ⟨rfl, -, -⟩ := visible_of_find? hs h
  obtain ⟨n, id, entry⟩ := b
  match entry with
  | .variable w =>
    refine .variable h ?_
    unfold origin? at ho
    rw [h] at ho
    exact ho
  | .function f => cases hb

theorem of_function {f : Function} (hs : s.Valid) (h : s.find? name = some (i, b))
    (hb : b.entry.erase = .function f) (ho : s.origin? o name = some d) (args : List Expr) :
    s.Resolves o (.call name args) name d := by
  obtain ⟨rfl, -, -⟩ := visible_of_find? hs h
  obtain ⟨n, id, entry⟩ := b
  match entry with
  | .function g =>
    refine .function h ?_
    unfold origin? at ho
    rw [h] at ho
    exact ho
  | .variable w => cases hb

end Store.Resolves

namespace Tracks

variable {program : Block} {concrete : Prop} {s σ : Store} {os o : Origins} {name : String}
  {t : Typed}

/-- What is in scope for the checker, is in scope for the program, from the same declaration. -/
theorem find? (h : Tracks program concrete s os σ o) {i : Nat} {b : Binding}
    (hf : s.find? name = some (i, b)) :
    ∃ j c d, σ.find? name = some (j, c) ∧ c.entry.erase = b.entry.erase ∧
      s.origin? os name = some d ∧ σ.origin? o name = some d ∧
      program.Registers d name b.entry.erase := by
  have hfind := h.ready.find? name
  rw [hf] at hfind
  obtain ⟨⟨j, c⟩, hc, he⟩ := Option.map_eq_some_iff.mp hfind.symm
  have hentry : c.entry.erase = b.entry.erase := (Prod.mk.inj he).2
  obtain ⟨d, hd, hr⟩ := h.exists_origin hc
  exact ⟨j, c, d, hc, hentry, by rw [h.origin?, hd], hd, hentry ▸ hr⟩

theorem identifier_resolves (h : Tracks program concrete s os σ o)
    (hc : (Expr.identifier name).check s = .ok t) :
    ∃ d, s.Resolves os (.identifier name) name d ∧ σ.Resolves o (.identifier name) name d ∧
      ∃ entry, program.Registers d name entry := by
  obtain ⟨v, hv, -⟩ := Expr.check_identifier hc
  unfold Store.lookupVariable at hv
  split at hv
  · case h_1 i n id w hf =>
    obtain ⟨j, c, d, hσ, he, hs, ho, hr⟩ := h.find? hf
    exact ⟨d, .of_variable h.ready.checked hf rfl hs, .of_variable h.ready.valid hσ he ho, _, hr⟩
  · cases hv
  · cases hv

theorem call_resolves (h : Tracks program concrete s os σ o) {args : List Expr}
    (hc : (Expr.call name args).check s = .ok t) :
    ∃ d, s.Resolves os (.call name args) name d ∧ σ.Resolves o (.call name args) name d ∧
      ∃ entry, program.Registers d name entry := by
  obtain ⟨f, scope, hf, -⟩ := Expr.check_call hc
  unfold Store.lookupFunction at hf
  split at hf
  · case h_1 i n id g hf' =>
    obtain ⟨j, c, d, hσ, he, hs, ho, hr⟩ := h.find? hf'
    exact ⟨d, .of_function h.ready.checked hf' rfl hs args,
      .of_function h.ready.valid hσ he ho args, _, hr⟩
  · cases hf
  · cases hf

end Tracks

/-- Whenever a run of an accepted program resolves a name, it finds what was bound by the same
declaration that the checker found for this occurrence of the name. -/
theorem Visited.resolves_as_checked {program : Block} {limit steps : Nat} {m : Machine} {a : Moment}
    {e : Expr} (hc : program.check = .ok ()) (hm : m.Idle)
    (hv : Visited limit steps program m a) (he : a.task.occurrence? = some e) :
    ∃ site t name d, program.site? a.position = some site ∧ e.check site.store = .ok t ∧
      site.store.Resolves site.origins e name d ∧ a.machine.store.Resolves a.origins e name d ∧
      ∃ entry, program.Registers d name entry := by
  have ha := hv.accepted False hc nofun hm
  cases ha with
  | @expr _ _ _ e' _ site t hat ht =>
    cases e' with
    | identifier name =>
      cases he
      obtain ⟨d, hd⟩ := hat.tracks.identifier_resolves ht
      exact ⟨site, t, name, d, hat.site_eq, ht, hd⟩
    | _ => cases he
  | @call _ _ _ _ _ _ site t hat ht =>
    cases he
    obtain ⟨d, hd⟩ := hat.tracks.call_resolves ht
    exact ⟨site, t, _, d, hat.site_eq, ht, hd⟩
  | _ => cases he

/-- In the body of a function that is called, a variable around the function is found. -/
theorem Visited.resolves_as_checked_in_frame :
    ∃ (program : Block) (m : Machine) (a : Moment) (d : Declaration), program.check = .ok () ∧
      m.Idle ∧ Visited 8 4 program m a ∧ a.task = .expr (.identifier "x") ∧ a.machine.depth = 1 ∧
      a.machine.store.Resolves a.origins (.identifier "x") "x" d := by
  let program : Block := [.declare ⟨1, 1⟩ "x" (some .boolean) none,
    .define ⟨2, 1⟩ "f" [] .none [.expr ⟨3, 3⟩ (.identifier "x")],
    .expr ⟨4, 1⟩ (.call "f" [])]
  have hc : program.check = .ok () := by with_unfolding_all rfl
  have h : Visited 8 4 program (.new ⟨[], []⟩ .unlimited) _ :=
    ((((Visited.start.enter .block).enter (.tail rfl)).enter (.tail rfl)).enter .head).enter .callStmt
  have h := h.enter (.frame (by with_unfolding_all rfl) rfl rfl (by decide) fun d hd => by
    have hd : some ⟨⟨.program, 1⟩, none⟩ = some d := by
      rw [← hd]
      with_unfolding_all rfl
    cases hd
    rfl)
  have h := (((h.enter (.body (.inl rfl))).enter .block).enter .head).enter (.operand rfl)
  obtain ⟨site, t, name, d, -, -, -, hd, -⟩ := h.resolves_as_checked hc (.new _ _) rfl
  cases hd with
  | «variable» hf ho => exact ⟨program, _, _, d, hc, .new _ _, h, rfl, rfl, .variable hf ho⟩

end Offside
