import Offside.Proofs.Execution.Discipline
import Offside.Proofs.Syntax.Declarations
import Offside.Proofs.Typing.Checks
import Offside.Proofs.Typing.Operators
import Offside.Proofs.Typing.Resemblance
import Offside.Proofs.Typing.Slots

/-!
When the store of the checker and that of a running program agree. The same names are in scope in
both, with the same types and functions, although the levels that they are on need not correspond:
the checker sees a function once, where it is bound, and a running program calls it from anywhere.
-/

namespace Offside

namespace Store

namespace WellTyped

variable {s : Store}

theorem pushLevel (hs : s.WellTyped) (parent : Option Link) : (s.pushLevel parent).WellTyped := by
  intro i level hl b hb v hv
  obtain ⟨-, hl⟩ | ⟨-, rfl⟩ := levels_pushLevel_cases hl
  · exact hs i level hl b hb v hv
  · cases hb

theorem deleteLevel (hs : s.WellTyped) : s.deleteLevel.WellTyped := by
  intro i level hl b hb v hv
  exact hs i level (levels_deleteLevel_cases hl).2 b hb v hv

theorem extend (hs : s.WellTyped) (h : 0 < s.depth) {name : String} {entry : Entry}
    (he : ∀ v, entry = .variable v → ∃ value, v.value = some value ∧ value.HasTy v.ty) :
    (s.extend name entry).WellTyped := by
  obtain ⟨inner, hinner⟩ := exists_innermost h
  intro i level hl b hb v hv
  obtain ⟨-, hl⟩ | ⟨-, rfl⟩ := levels_extend_cases hinner hl
  · exact hs i level hl b hb v hv
  · obtain rfl | hb := List.mem_cons.mp hb
    · exact he v hv
    · exact hs _ inner hinner b hb v hv

theorem of_extend {name : String} {entry : Entry} (hs : (s.extend name entry).WellTyped) :
    s.WellTyped := by
  intro i level hl b hb v hv
  have hlt := lt_depth hl
  by_cases hi : i < s.depth - 1
  · rw [← levels_extend_of_lt s name entry hi] at hl
    exact hs i level hl b hb v hv
  · obtain rfl : i = s.depth - 1 := by omega
    exact hs _ _ (levels_extend_self s name entry hl) b (List.mem_cons_of_mem _ hb) v hv

end WellTyped

end Store

/-- The function was found well typed where these names were in scope. If all declarations are to be
concrete, then those in its body are. -/
def Function.Accepted (concrete : Prop) (f : Function) (context : List (String × Entry)) : Prop :=
  (concrete → Stmt.AllConcrete f.body) ∧
    ∃ s frame : Store, s.Valid ∧ 0 < s.depth ∧ s.locals = [] ∧ s.context = context ∧
      Stmt.bindAll s f.params = .ok frame ∧
      Stmt.checkAll frame.newLevel (some f.returns) f.body = .ok ()

/-- Every function that is in scope was found well typed where it was bound. -/
def Closed (concrete : Prop) (context : List (String × Entry)) : Prop :=
  ∀ before name f after, context = before ++ (name, .function f) :: after →
    f.Accepted concrete ((name, .function f) :: after)

theorem Closed.cons {concrete : Prop} {name : String} {entry : Entry}
    {context : List (String × Entry)} (h : Closed concrete context)
    (he : ∀ f, entry = .function f → f.Accepted concrete ((name, entry) :: context)) :
    Closed concrete ((name, entry) :: context) := by
  intro before n f after hc
  cases before with
  | nil =>
    cases hc
    exact he f rfl
  | cons e before =>
    rw [List.cons_append, List.cons.injEq] at hc
    exact h before n f after hc.2

theorem Closed.of_suffix {concrete : Prop} {before context : List (String × Entry)}
    (h : Closed concrete (before ++ context)) : Closed concrete context := by
  intro before' n f after hc
  exact h (before ++ before') n f after (by rw [hc, List.append_assoc])

/-- The running store `σ` is as the typing rules expect it in `s`. -/
structure Ready (concrete : Prop) (s σ : Store) : Prop extends s.Resembles σ where
  typed : σ.WellTyped
  closed : Closed concrete σ.context

namespace Ready

variable {concrete : Prop} {s σ : Store}

theorem keeps {m m' : Machine} (h : Ready concrete s m.store) (hk : m.Keeps m')
    (ht : m'.store.WellTyped) : Ready concrete s m'.store where
  toResembles := h.of_shape hk.shape hk.count
  typed := ht
  closed := by
    rw [Store.context_of_shape hk.shape]
    exact h.closed

/-- What is bound in both is the same up to values. -/
theorem entry_eq {name : String} {d e : Entry} (h : Ready concrete (s.extend name d) (σ.extend name e))
    (hs : Ready concrete s σ) : d.erase = e.erase := by
  have hcontext := h.context
  rw [Store.context_extend hs.checking hs.checked, Store.context_extend hs.running hs.valid,
    List.cons.injEq, Prod.mk.injEq] at hcontext
  exact hcontext.1.2

theorem newLevel (h : Ready concrete s σ) : Ready concrete s.newLevel σ.newLevel where
  toResembles := h.toResembles.newLevel
  typed := h.typed.pushLevel _
  closed := by
    rw [Store.context_newLevel h.running]
    exact h.closed

/-- Checker and program bind the same name, the checker without a value. -/
theorem extend (h : Ready concrete s σ) {name : String} (hn : name ∉ s.locals) {d e : Entry}
    (he : d.erase = e.erase)
    (hv : ∀ v, e = .variable v → ∃ value, v.value = some value ∧ value.HasTy v.ty)
    (hf : ∀ f, e = .function f → f.Accepted concrete ((name, e) :: σ.context)) :
    Ready concrete (s.extend name d) (σ.extend name e) where
  toResembles := h.toResembles.extend hn he
  typed := h.typed.extend h.running hv
  closed := by
    rw [Store.context_extend h.running h.valid]
    refine h.closed.cons fun f hfe => ?_
    match e with
    | .variable v => cases hfe
    | .function g => exact hf f hfe

theorem register {name : String} {d e : Entry} {s' : Store} (h : Ready concrete s σ)
    (hr : s.register name d = .ok s') (he : d.erase = e.erase)
    (hv : ∀ v, e = .variable v → ∃ value, v.value = some value ∧ value.HasTy v.ty)
    (hf : ∀ f, e = .function f → f.Accepted concrete ((name, e) :: σ.context)) :
    ∃ σ', σ.register name e = .ok σ' ∧ Ready concrete s' σ' := by
  obtain ⟨hn, rfl⟩ := Store.register_ok h.checking hr
  refine ⟨σ.extend name e, ?_, h.extend hn he hv hf⟩
  rw [Store.register_eq h.running, if_neg (h.locals ▸ hn)]

/-- A variable that the checker found is found in a running program, with the same type. -/
theorem resolve {name : String} {v : Variable} (h : Ready concrete s σ)
    (hv : s.lookupVariable name = .ok v) :
    ∃ slot, σ.resolve name = .ok slot ∧ slot.path = [] ∧ σ.SlotTy slot v.ty := by
  unfold Store.lookupVariable at hv
  obtain ⟨hs, -⟩ | ⟨_, _, _, v', j, _, _, w, hs, hb, hty⟩ | ⟨_, _, _, _, _, _, f, hs, -⟩ :=
    h.find?_cases name
  · rw [hs] at hv
    cases hv
  · rw [hs] at hv
    cases hv
    obtain ⟨-, ⟨level, hl, hfl⟩, -⟩ := Store.visible_of_find? h.valid hb
    refine ⟨⟨j, name, []⟩, ?_, rfl, w, Store.variableAt_eq hl hfl rfl, by simp [Ty.dig, hty]⟩
    unfold Store.resolve
    rw [hb]
  · rw [hs] at hv
    cases hv

/-- A function that the checker found is found in a running program. Its body was checked where
what was in scope is what is in scope in the frame of the call. -/
theorem lookupFunction {name : String} {f : Function} {scope : Scope} (h : Ready concrete s σ)
    (hf : s.lookupFunction name = .ok (f, scope)) :
    ∃ scope', σ.lookupFunction name = .ok (f, scope') ∧ (concrete → Stmt.AllConcrete f.body) ∧
      ∃ s₀ frame, Ready concrete s₀ (σ.newFrame scope') ∧ Stmt.bindAll s₀ f.params = .ok frame ∧
        Stmt.checkAll frame.newLevel (some f.returns) f.body = .ok () := by
  unfold Store.lookupFunction at hf
  obtain ⟨hs, -⟩ | ⟨_, _, _, v, _, _, _, _, hs, -⟩ | ⟨_, _, _, j, n, id, g, hs, hb⟩ :=
    h.find?_cases name
  · rw [hs] at hf
    cases hf
  · rw [hs] at hf
    cases hf
  · rw [hs] at hf
    cases hf
    obtain ⟨-, ⟨level, hl, -⟩, before, after, hvis, hframe⟩ := Store.visible_of_find? h.valid hb
    have hcontext : σ.context =
        before.map (fun e => (e.2.name, e.2.entry.erase)) ++ (n, .function f) ::
          after.map fun e => (e.2.name, e.2.entry.erase) := by
      simp [Store.context, hvis, Entry.erase]
    have hinner : (σ.newFrame ⟨j, id⟩).context = (n, .function f) ::
        after.map fun e => (e.2.name, e.2.entry.erase) := by
      simp only at hframe
      simp [Store.context, hframe, Entry.erase]
    obtain ⟨hconcrete, s₀, frame, hs₀, hd₀, hl₀, hc₀, hbind, hbody⟩ :=
      h.closed _ _ _ _ hcontext
    refine ⟨⟨j, id⟩, ?_, hconcrete, s₀, frame, ?_, hbind, hbody⟩
    · unfold Store.lookupFunction
      rw [hb]
    · exact {
        checked := hs₀
        checking := hd₀
        valid := h.valid.newFrame (Store.lt_depth hl)
        running := by simp
        context := by rw [hc₀, hinner]
        locals := by rw [hl₀, Store.locals_newFrame]
        typed := h.typed.pushLevel _
        closed := by
          have hc := h.closed
          rw [hcontext] at hc
          rw [hinner]
          exact hc.of_suffix }

/-- A function that the checker accepts is bound without a fault. -/
theorem define {name : String} {f : Function} {s' frame : Store} (h : Ready concrete s σ)
    (hb : Stmt.bindFunction s name f = .ok (s', frame))
    (hbody : Stmt.checkAll frame.newLevel (some f.returns) f.body = .ok ())
    (hc : concrete → Stmt.AllConcrete f.body) :
    ∃ σ', σ.register name (.function f) = .ok σ' ∧ Ready concrete s' σ' := by
  obtain ⟨-, hr, g, scope, hl, hparams⟩ := Stmt.bindFunction_ok hb
  refine h.register hr rfl nofun fun f' hf => ?_
  cases hf
  obtain ⟨hn, rfl⟩ := Store.register_ok h.checking hr
  have hvis := (Store.find?_extend h.checking h.checked hn (.function f)).2
  rw [Store.lookupFunction_extend h.checking h.checked hn] at hl
  cases hl
  refine ⟨hc, _, frame, (h.checked.extend h.checking hn _).newFrame ?_, by simp,
    Store.locals_newFrame _ _, ?_, hparams, hbody⟩
  · simp only [Store.depth_extend]
    have := h.checking
    omega
  · have hcontext := Store.context_extend h.checking h.checked name (.function f)
    unfold Store.context at hcontext ⊢
    rw [hvis, hcontext]
    exact congrArg _ h.context

end Ready

namespace Exec

/-- The parameters of a function are bound to arguments that fit. -/
theorem bindArgs_ready {concrete : Prop} (function : String) {params : List Param}
    {values : List Value} {s frame : Store} {m : Machine} (h : Ready concrete s m.store)
    (hb : Stmt.bindAll s params = .ok frame)
    (hv : List.Forall₂ (fun v p => ∃ w, v.coerce p.ty = some w ∧ w.HasTy p.ty) values params) :
    (bindArgs function params values).Ends m (fun _ m' => Ready concrete frame m'.store)
      fun _ _ => False := by
  induction hv generalizing s m with
  | nil =>
    cases hb
    exact .pure h
  | @cons v p values params hvp _ ih =>
    obtain ⟨s₁, hr, hb⟩ := Stmt.bindAll_cons hb
    obtain ⟨w, hw, hwt⟩ := hvp
    obtain ⟨σ₁, hσ, hready⟩ := h.register (e := .variable ⟨p.ty, some w⟩) hr rfl
      (fun u hu => by
        cases hu
        exact ⟨w, rfl, hwt⟩)
      nofun
    unfold bindArgs
    rw [hw]
    exact .bind (.update_ok (.declare _ _) hσ (ih hready hb))

end Exec

end Offside
