import Offside.Proofs.Typing.Expressions

/-!
What a checked statement does. Expressions and statements are sound together, since a call executes
the body of a function.
-/

namespace Offside

namespace Exec

variable {concrete : Prop} {limit : Nat} {eval : Expr → Exec Evaluated} {exec : Stmt → Exec Signal}
  {s : Store} {m : Machine}

theorem sequence_sound (hs : ∀ stmt, Stmt.Sound concrete exec stmt) {stmts : List Stmt}
    {returns : Option Ty} (hc : Stmt.checkAll s returns stmts = .ok ())
    (hconcrete : concrete → Stmt.AllConcrete stmts) (hm : Ready concrete s m.store) :
    (sequence exec stmts).Ends m (fun signal m' => m'.store.WellTyped ∧ signal.Fits returns)
      fun f m' => m'.store.WellTyped ∧ (concrete → f.cause.Expected) := by
  induction stmts generalizing s m with
  | nil => exact .pure ⟨hm.typed, trivial⟩
  | cons stmt stmts ih =>
    obtain ⟨s', hstmt, hrest⟩ := Stmt.checkAll_cons hc
    refine .bind <| (hs stmt s s' returns m hstmt (fun h => (hconcrete h).1) hm).mono
      (fun signal m₁ h => ?_) fun _ _ hf => hf
    cases signal with
    | next => exact ih hrest (fun h => (hconcrete h).2) (h.ready rfl)
    | «return» v => exact .pure ⟨h.typed, h.fits⟩

theorem block_sound (hs : ∀ stmt, Stmt.Sound concrete exec stmt)
    (hk : ∀ stmt, (exec stmt).Contained) {stmts : Block} {returns : Option Ty}
    (hc : Stmt.checkAll s.newLevel returns stmts = .ok ())
    (hconcrete : concrete → Stmt.AllConcrete stmts) (hm : Ready concrete s m.store) :
    (block exec stmts).Ends m (fun signal m' => m.Advances m' ∧ signal.Fits returns)
      (m.Fails concrete) := by
  have htyped := Ends.onLevel (x := sequence exec stmts) (m := m)
    (Q := fun signal m' => m'.store.WellTyped ∧ signal.Fits returns)
    (R := fun f m' => m'.store.WellTyped ∧ (concrete → f.cause.Expected))
    ((sequence_sound hs hc hconcrete hm.newLevel).mono
      (fun _ _ h => ⟨h.1.deleteLevel, h.2⟩) fun _ _ h => ⟨h.1.deleteLevel, h.2⟩)
  exact ((tidy_block hk stmts m).and htyped).mono (fun _ _ h => ⟨⟨h.1, h.2.1⟩, h.2.2⟩)
    fun _ _ h => ⟨⟨h.1, h.2.1⟩, h.2.2⟩

/-- The body of a function, in a frame that agrees with the one that it was checked in. -/
theorem body_sound (hs : ∀ stmt, Stmt.Sound concrete exec stmt)
    (hk : ∀ stmt, (exec stmt).Contained) (name : String) {f : Function} {values : List Value}
    {frame : Store} (hm : Ready concrete s m.store) (hbind : Stmt.bindAll s f.params = .ok frame)
    (hbody : Stmt.checkAll frame.newLevel (some f.returns) f.body = .ok ())
    (hconcrete : concrete → Stmt.AllConcrete f.body)
    (hv : List.Forall₂ (fun v p => ∃ w, v.coerce p.ty = some w ∧ w.HasTy p.ty) values f.params) :
    (body exec name f values).Ends m
      (fun returned m' => m'.store.WellTyped ∧
        ∀ v, returned = some v → ∃ w, v.coerce f.returns = some w ∧ w.HasTy f.returns)
      fun fault m' => m'.store.WellTyped ∧ (concrete → fault.cause.Expected) := by
  refine .bind <| (bindArgs_ready name hm hbind hv).mono (fun _ m₁ hm₁ => ?_)
    fun _ _ hf => hf.elim
  refine .bind <| (block_sound hs hk hbody hconcrete hm₁).mono (fun signal m₂ h => ?_)
    fun _ _ hf => ⟨hf.advances.typed, hf.expected⟩
  obtain ⟨ha, hfits⟩ := h
  cases signal with
  | next => exact .pure ⟨ha.typed, nofun⟩
  | «return» returned =>
    refine .pure ⟨ha.typed, fun v hv => ?_⟩
    subst hv
    obtain ⟨ty, w, hty, hw⟩ := hfits
    cases hty
    exact ⟨w, hw⟩

/-- Whatever its body does, a call leaves the levels of its caller as they were. -/
theorem frame_sound (hs : ∀ stmt, Stmt.Sound concrete exec stmt)
    (hk : ∀ stmt, (exec stmt).Contained) (name : String) {f : Function} {values : List Value}
    {scope : Scope} {frame : Store} (hm : Ready concrete s (m.store.newFrame scope))
    (hbind : Stmt.bindAll s f.params = .ok frame)
    (hbody : Stmt.checkAll frame.newLevel (some f.returns) f.body = .ok ())
    (hconcrete : concrete → Stmt.AllConcrete f.body)
    (hv : List.Forall₂ (fun v p => ∃ w, v.coerce p.ty = some w ∧ w.HasTy p.ty) values f.params) :
    (inFrame scope (body exec name f values)).Ends m
      (fun returned m' => m.Advances m' ∧
        ∀ v, returned = some v → ∃ w, v.coerce f.returns = some w ∧ w.HasTy f.returns)
      (m.Fails concrete) := by
  have hends := body_sound (m :=
    { m with store := m.store.newFrame scope, depth := m.depth + 1 })
    hs hk name hm hbind hbody hconcrete hv
  have htyped := Ends.inFrame scope (m := m)
    (Q := fun returned m' => m'.store.WellTyped ∧
      ∀ v, returned = some v → ∃ w, v.coerce f.returns = some w ∧ w.HasTy f.returns)
    (R := fun fault m' => m'.store.WellTyped ∧ (concrete → fault.cause.Expected))
    (hends.mono (fun _ _ h => ⟨h.1.deleteLevel, h.2⟩) fun _ _ h => ⟨h.1.deleteLevel, h.2⟩)
  have hkeeps := (contained_body hk name f values).inFrame scope m
  exact (hkeeps.and htyped).mono (fun _ _ h => ⟨⟨h.1, h.2.1⟩, h.2.2⟩)
    fun _ _ h => ⟨⟨h.1, h.2.1⟩, h.2.2⟩

theorem result_sound {ty : Ty} {returned : Option Value}
    (h : ∀ v, returned = some v → ∃ w, v.coerce ty = some w ∧ w.HasTy ty) :
    (result ty returned).Ends m
      (fun returned m' => m' = m ∧ (returned = none → ty = .none) ∧
        ∀ v, returned = some v → v.HasTy ty)
      fun f m' => m' = m ∧ f.cause.Expected := by
  unfold result
  cases returned with
  | none =>
    dsimp only
    split
    · case isTrue hn => exact .pure ⟨rfl, fun _ => hn, nofun⟩
    · exact .fail ⟨rfl, trivial⟩
  | some v =>
    obtain ⟨w, hw, hty⟩ := h v rfl
    simp only [hw]
    refine .pure ⟨rfl, nofun, fun u hu => ?_⟩
    cases hu
    exact hty

/-- The arguments of a call fit its parameters. -/
theorem args_sound (he : ∀ e, Expr.Sound concrete eval e) {name : String} {params : List Param}
    {args : List Expr} (hlen : args.length = params.length)
    (hargs : Expr.checkArgs s name params args = .ok ()) (hm : Ready concrete s m.store) :
    (evalAll eval args).Ends m
      (fun values m' => m.Advances m' ∧
        List.Forall₂ (fun v p => ∃ w, v.coerce p.ty = some w ∧ w.HasTy p.ty) values params)
      (m.Fails concrete) := by
  refine evalAll_sound (Q := fun v p => ∃ w, v.coerce p.ty = some w ∧ w.HasTy p.ty)
    (fun e p m hp hm => ?_) (Expr.checkArgs_ok hlen hargs) hm
  obtain ⟨t, ht, hacc⟩ := hp
  obtain ⟨hnone, hmixed⟩ := Ty.ne_of_accepts hacc
  exact (evalValue_sound he ht hnone hm).mono
    (fun v m' hv => ⟨hv.1, (hv.2 hmixed).coerce_of_accepts hacc⟩) fun _ _ hf => hf

theorem call_sound (he : ∀ e, Expr.Sound concrete eval e)
    (hs : ∀ stmt, Stmt.Sound concrete exec stmt) (hk : ∀ stmt, (exec stmt).Contained)
    {name : String} {args : List Expr} {t : Typed} (hc : (Expr.call name args).check s = .ok t)
    (hm : Ready concrete s m.store) :
    (call limit eval exec name args).Ends m
      (fun returned m' => m.Advances m' ∧ (returned = none → t.ty = .none) ∧
        ∀ v, returned = some v → v.HasTy t.ty)
      (m.Fails concrete) := by
  obtain ⟨f, scope₀, hf, hlen, hargs, rfl⟩ := Expr.check_call hc
  obtain ⟨scope, hscope, -⟩ := hm.lookupFunction hf
  refine .bind (.lookup_ok hscope ?_)
  dsimp only
  rw [if_pos hlen]
  refine .bind <| (args_sound he hlen hargs hm).mono (fun values m₁ h => ?_) fun _ _ hf => hf
  obtain ⟨ha, hvalues⟩ := h
  refine .bind (.depth ?_)
  split
  · exact .fail ⟨ha, fun _ => trivial⟩
  · have hm₁ := hm.advance ha
    obtain ⟨scope', hscope', hconcrete, s₀, frame, hframe, hbind, hbody⟩ := hm₁.lookupFunction hf
    rw [Store.lookupFunction_of_shape ha.keeps.shape, hscope] at hscope'
    cases hscope'
    refine .bind <| (frame_sound hs hk name hframe hbind hbody hconcrete hvalues).mono
      (fun returned m₂ h => ?_) fun _ _ hf => ⟨ha.trans hf.advances, hf.expected⟩
    have ha' := ha.trans h.1
    refine (result_sound h.2).mono (fun r m₃ hr => ?_) fun f m₃ hf => ?_
    · obtain ⟨rfl, hr⟩ := hr
      exact ⟨ha', hr⟩
    · obtain ⟨rfl, hf⟩ := hf
      exact ⟨ha', fun _ => hf⟩

theorem evalStep_sound (he : ∀ e, Expr.Sound concrete eval e)
    (hs : ∀ stmt, Stmt.Sound concrete exec stmt) (hk : ∀ stmt, (exec stmt).Contained) (e : Expr) :
    Expr.Sound concrete (evalStep limit eval exec) e := by
  intro s t m hc hm
  have weaken : ∀ f m', m.Fails concrete f m' →
      m.Fails (concrete ∧ (e.isCall → t.ty ≠ .none)) f m' :=
    fun _ _ h => ⟨h.advances, fun hw => h.expected hw.1⟩
  cases e with
  | boolean b =>
    rw [Expr.check] at hc
    cases hc
    exact .pure ⟨.refl hm.typed, Evaluated.loads_value _ _, fun _ => .boolean b⟩
  | number x =>
    rw [Expr.check] at hc
    cases hc
    exact .pure ⟨.refl hm.typed, Evaluated.loads_value _ _, fun _ => .number x⟩
  | string text =>
    rw [Expr.check] at hc
    cases hc
    exact .pure ⟨.refl hm.typed, Evaluated.loads_value _ _, fun _ => .string text⟩
  | list es => exact (list_sound he hc hm).mono (fun _ _ h => h) weaken
  | identifier name => exact (identifier_sound hc hm).mono (fun _ _ h => h) fun _ _ h => h.elim
  | unary op arg => exact (unary_sound he hc hm).mono (fun _ _ h => h) weaken
  | binary lhs op rhs =>
    cases op with
    | assign base => exact (assign_sound he hc hm).mono (fun _ _ h => h) weaken
    | index => exact (index_sound he hc hm).mono (fun _ _ h => h) weaken
    | operation op => exact (operation_sound he hc hm).mono (fun _ _ h => h) weaken
  | call name args =>
    refine .bind <| (call_sound he hs hk hc hm).mono (fun returned m' h => ?_) weaken
    obtain ⟨ha, hnone, hsome⟩ := h
    cases returned with
    | none => exact .fail ⟨ha, fun hw => absurd (hnone rfl) (hw.2 rfl)⟩
    | some v =>
      refine .pure ⟨ha, Evaluated.loads_value _ v, fun _ => ?_⟩
      obtain ⟨f, scope, -, -, -, rfl⟩ := Expr.check_call hc
      unfold Evaluated.HasTy
      simp only
      have hv := hsome v rfl
      rw [Ty.stored_of_isPlain hv.isPlain]
      exact hv

section Statements

variable {returns : Option Ty}

/-- What declares nothing leaves the names as they are. -/
theorem leads_of_advances {x : Exec Signal} (hm : Ready concrete s m.store)
    (h : x.Ends m (fun signal m' => m.Advances m' ∧ signal.Fits returns) (m.Fails concrete)) :
    x.Ends m (Stmt.Leads concrete s returns)
      fun f m' => m'.store.WellTyped ∧ (concrete → f.cause.Expected) :=
  h.mono (fun _ _ h => ⟨h.1.typed, h.2, fun _ => hm.advance h.1⟩)
    fun _ _ h => ⟨h.advances.typed, h.expected⟩

/-- A computation without a signal goes on to the next statement. -/
theorem next_sound {α : Type} {x : Exec α} {Q : α → Machine → Prop}
    (h : x.Ends m (fun a m' => m.Advances m' ∧ Q a m') (m.Fails concrete)) :
    (x >>= fun _ => Pure.pure Signal.next).Ends m
      (fun signal m' => m.Advances m' ∧ signal.Fits returns) (m.Fails concrete) :=
  .bind (h.mono (fun _ _ h => .pure ⟨h.1, trivial⟩) fun _ _ h => h)

theorem evalCondition_sound (he : ∀ e, Expr.Sound concrete eval e) {e : Expr}
    (hc : ∃ t, e.check s = .ok t ∧ t.ty = .boolean) (hm : Ready concrete s m.store) :
    (evalCondition eval e).Ends m (fun _ m' => m.Advances m') (m.Fails concrete) := by
  obtain ⟨t, ht, hb⟩ := hc
  refine .bind <| (evalValue_sound he ht (by rw [hb]; nofun) hm).mono (fun v m' hv => ?_)
    fun _ _ hf => hf
  have hty := hv.2 (by rw [hb]; nofun)
  rw [hb] at hty
  obtain ⟨b, rfl⟩ := hty.boolean_inv
  exact .pure hv.1

theorem repeatWhile_sound {loc : Location} {condition : Exec Bool} {body : Exec Signal}
    (hcondition : ∀ m : Machine, Ready concrete s m.store →
      condition.Ends m (fun _ m' => m.Advances m') (m.Fails concrete))
    (hbody : ∀ m : Machine, Ready concrete s m.store →
      body.Ends m (fun signal m' => m.Advances m' ∧ signal.Fits returns) (m.Fails concrete))
    (n : Nat) (hm : Ready concrete s m.store) :
    (repeatWhile loc condition body n).Ends m
      (fun signal m' => m.Advances m' ∧ signal.Fits returns) (m.Fails concrete) := by
  induction n generalizing m with
  | zero => exact .exhausted
  | succ n ih =>
    have ha₀ : m.Advances { m with location := some loc } := ⟨.of_store rfl rfl, hm.typed⟩
    refine .bind (.setLocation ?_)
    refine .bind <| (hcondition _ (hm.advance ha₀)).mono (fun again m₁ ha₁ => ?_)
      fun _ _ hf => ⟨ha₀.trans hf.advances, hf.expected⟩
    have ha := ha₀.trans ha₁
    split
    · refine .bind <| (hbody m₁ (hm.advance ha)).mono (fun signal m₂ h => ?_)
        fun _ _ hf => ⟨ha.trans hf.advances, hf.expected⟩
      cases signal with
      | next =>
        have ha' := ha.trans h.1
        exact ha'.ends (ih (hm.advance ha'))
      | «return» v => exact .pure ⟨ha.trans h.1, h.2⟩
    · exact .pure ⟨ha, trivial⟩

/-- One repetition of a loop over a range. -/
theorem item_sound (hs : ∀ stmt, Stmt.Sound concrete exec stmt)
    (hk : ∀ stmt, (exec stmt).Contained) {name : String} {element : Ty} {frame : Store}
    {stmts : Block} (hr : s.newLevel.register name (.variable ⟨element, none⟩) = .ok frame)
    (hc : Stmt.checkAll frame.newLevel returns stmts = .ok ())
    (hconcrete : concrete → Stmt.AllConcrete stmts) {item : Value} (hitem : item.HasTy element)
    (hm : Ready concrete s m.store) :
    (onLevel (update (·.declare name (.variable ⟨element, some item⟩)) >>= fun _ =>
      block exec stmts)).Ends m
      (fun signal m' => m.Advances m' ∧ signal.Fits returns) (m.Fails concrete) := by
  obtain ⟨σ, hσ, hready⟩ := hm.newLevel.register (e := .variable ⟨element, some item⟩) hr rfl
    (fun v hv => by
      cases hv
      exact ⟨item, rfl, hitem⟩)
    nofun
  have hbody : (update (·.declare name (.variable ⟨element, some item⟩)) >>= fun _ =>
      block exec stmts).Ends { m with store := m.store.newLevel }
      (fun signal m' => m'.store.WellTyped ∧ signal.Fits returns)
      fun f m' => m'.store.WellTyped ∧ (concrete → f.cause.Expected) := by
    refine .bind (.update_ok (.declare _ _) hσ ?_)
    exact (block_sound hs hk hc hconcrete hready).mono
      (fun _ _ h => ⟨h.1.typed, h.2⟩) fun _ _ hf => ⟨hf.advances.typed, hf.expected⟩
  have htyped := Ends.onLevel (m := m)
    (Q := fun signal m' => m'.store.WellTyped ∧ signal.Fits returns)
    (R := fun f m' => m'.store.WellTyped ∧ (concrete → f.cause.Expected))
    (hbody.mono (fun _ _ h => ⟨h.1.deleteLevel, h.2⟩) fun _ _ h => ⟨h.1.deleteLevel, h.2⟩)
  have hkeeps := tidy_item (tidy_block hk stmts) name (.variable ⟨element, some item⟩) m
  exact (hkeeps.and htyped).mono (fun _ _ h => ⟨⟨h.1, h.2.1⟩, h.2.2⟩)
    fun _ _ h => ⟨⟨h.1, h.2.1⟩, h.2.2⟩

theorem forEach_sound (hs : ∀ stmt, Stmt.Sound concrete exec stmt)
    (hk : ∀ stmt, (exec stmt).Contained) {name : String} {element : Ty} {frame : Store}
    {stmts : Block} (hr : s.newLevel.register name (.variable ⟨element, none⟩) = .ok frame)
    (hc : Stmt.checkAll frame.newLevel returns stmts = .ok ())
    (hconcrete : concrete → Stmt.AllConcrete stmts) {items : List Value}
    (hitems : ∀ item ∈ items, item.HasTy element) (hm : Ready concrete s m.store) :
    (forEach name element (block exec stmts) items).Ends m
      (fun signal m' => m.Advances m' ∧ signal.Fits returns) (m.Fails concrete) := by
  induction items generalizing m with
  | nil => exact .pure ⟨.refl hm.typed, trivial⟩
  | cons item items ih =>
    have hitem := hitems item List.mem_cons_self
    refine .bind <| (item_sound hs hk hr hc hconcrete hitem hm).mono (fun signal m₁ h => ?_)
      fun _ _ hf => hf
    obtain ⟨ha, hfits⟩ := h
    cases signal with
    | next =>
      exact ha.ends (ih (fun i hi => hitems i (List.mem_cons_of_mem _ hi)) (hm.advance ha))
    | «return» v => exact .pure ⟨ha, hfits⟩

theorem initialValue_sound (he : ∀ e, Expr.Sound concrete eval e) {loc : Location}
    {name : String} {ty : Option Ty} {initializer : Option Expr} {t : Ty}
    (hc : Stmt.declaredType s name ty initializer = .ok t)
    (hconcrete : concrete → (Stmt.declare loc name ty initializer).Concrete)
    (hm : Ready concrete s m.store) :
    (evalOptional eval initializer >>= fun value => initialValue name ty value).Ends m
      (fun a m' => m.Advances m' ∧ a.1 = t ∧ a.2.HasTy t) (m.Fails concrete) := by
  obtain ⟨e, source, rfl, rfl, hsource, hacc⟩ | ⟨rfl, rfl⟩ |
    ⟨e, source, rfl, rfl, hsource, hcon⟩ := Stmt.declaredType_cases hc
  · obtain ⟨hnone, hmixed⟩ := Ty.ne_of_accepts hacc
    refine .bind (.bind ((evalValue_sound he hsource hnone hm).mono (fun v m' hv => ?_)
      fun _ _ hf => hf))
    obtain ⟨ha, hv⟩ := hv
    obtain ⟨w, hw, hwt⟩ := (hv hmixed).coerce_of_accepts hacc
    refine .pure (.bind (.pure ?_))
    simp only [hw]
    exact .pure ⟨ha, rfl, hwt⟩
  · refine .bind (.pure (.bind (.pure ?_)))
    cases hd : Value.default? t with
    | none =>
      simp only [hd]
      refine .fail ⟨.refl hm.typed, fun h => ?_⟩
      obtain ⟨v, hv, -⟩ := Value.default?_of_isConcrete (hconcrete h)
      rw [hd] at hv
      cases hv
    | some v =>
      simp only [hd]
      exact .pure ⟨.refl hm.typed, rfl, Value.hasTy_default? hd⟩
  · obtain ⟨rfl, hct⟩ := Ty.concretize?_eq hcon
    have hne : source.ty ≠ .none ∧ source.ty ≠ .list .mixed := by
      refine ⟨fun hn => ?_, fun hn => ?_⟩
      · rw [hn] at hct
        cases hct
      · rw [hn] at hct
        cases hct
    refine .bind (.bind ((evalValue_sound he hsource hne.1 hm).mono (fun v m' hv => ?_)
      fun _ _ hf => hf))
    obtain ⟨ha, hv⟩ := hv
    have hv := hv hne.2
    have hvc : v.ty.concretize? = some source.ty.stored := by
      rw [hv.ty_eq]
      exact Ty.concretize?_of_isConcrete hct
    obtain ⟨w, hw, hwt⟩ := hv.coerce_self
    refine .pure ?_
    unfold initialValue
    simp only [hvc]
    refine .bind (.pure ?_)
    simp only [hw]
    exact .pure ⟨ha, rfl, hwt⟩

theorem declare_sound (he : ∀ e, Expr.Sound concrete eval e) {loc : Location} {name : String}
    {ty : Option Ty} {initializer : Option Expr} {s' : Store}
    (hc : (Stmt.declare loc name ty initializer).check s returns = .ok s')
    (hconcrete : concrete → (Stmt.declare loc name ty initializer).Concrete)
    (hm : Ready concrete s m.store) :
    (evalOptional eval initializer >>= fun value => initialValue name ty value >>= fun a =>
      update (·.declare name (.variable ⟨a.1, some a.2⟩)) >>= fun _ =>
        Pure.pure Signal.next).Ends m (Stmt.Leads concrete s' returns)
      fun f m' => m'.store.WellTyped ∧ (concrete → f.cause.Expected) := by
  obtain ⟨t, ht, hr⟩ := Stmt.check_declare hc
  rw [← bind_assoc]
  refine .bind <| (initialValue_sound he ht hconcrete hm).mono (fun a m₁ h => ?_)
    fun _ _ hf => ⟨hf.advances.typed, hf.expected⟩
  obtain ⟨u, v⟩ := a
  obtain ⟨ha, rfl, hv⟩ := h
  obtain ⟨σ, hσ, hready⟩ := (hm.advance ha).register (e := .variable ⟨u, some v⟩) hr rfl
    (fun w hw => by
      cases hw
      exact ⟨v, rfl, hv⟩)
    nofun
  exact .bind (.update_ok (.declare _ _) hσ (.pure ⟨hready.typed, trivial, fun _ => hready⟩))

theorem readInto_sound (he : ∀ e, Expr.Sound concrete eval e) {target : Expr} {t : Typed}
    (hc : target.check s = .ok t) (hprim : t.ty.isPrimitive) (hd : t.denotes = .slot)
    (hm : Ready concrete s m.store) :
    (readInto eval target).Ends m (fun _ m' => m.Advances m' ∧ True) (m.Fails concrete) := by
  refine .bind <| (he target s t m hc hm).mono (fun ev m₁ hy => ?_) fun f m₁ hf =>
    ⟨hf.advances, fun h => hf.expected ⟨h, fun _ => Ty.ne_none_of_isPrimitive hprim⟩⟩
  have hev := hy.hasTy (Ty.ne_mixed_of_isPrimitive hprim)
  have ha := hy.advances
  cases ev with
  | value v =>
    have hvalue := (Evaluated.hasTy_value hev).1
    rw [hd] at hvalue
    cases hvalue
  | slot slot =>
    have hslot := (Evaluated.hasTy_slot hev).2
    have hm₁ := hm.advance ha
    refine .bind (.pure ?_)
    refine .bind <| (load_sound hm₁.typed hslot).mono (fun old m₂ hold => ?_) fun f m₂ hf => ?_
    · obtain ⟨rfl, -, hold⟩ := hold
      have hinput : ∀ input, m.Advances { m₂ with input := input } := fun input =>
        ha.trans ⟨.of_store rfl rfl, hm₁.typed⟩
      refine .bind (.readWord (fun word input => ?_) fun e input => ⟨hinput input, fun _ => trivial⟩)
      rw [hold.ty_eq]
      refine .bind <| (ofExcept_sound (Value.ofInput_computes word hprim)).mono
        (fun new m₃ hnew => ?_) fun f m₃ hf => ?_
      · obtain ⟨rfl, hnew⟩ := hnew
        refine (store_sound (m := { m₂ with input := input }) hm₁.typed hm₁.valid hslot
          hnew.coerce_self).mono (fun _ m₄ h => ⟨(hinput input).trans h.1, trivial⟩) fun f m₄ hf => ?_
        obtain ⟨rfl, hf⟩ := hf
        exact ⟨hinput input, fun _ => hf⟩
      · obtain ⟨rfl, hf⟩ := hf
        exact ⟨hinput input, fun _ => hf⟩
    · obtain ⟨rfl, hf⟩ := hf
      exact ⟨ha, fun _ => hf⟩

theorem return_sound (he : ∀ e, Expr.Sound concrete eval e) {value : Option Expr}
    (hc : Stmt.checkReturn s returns value = .ok ()) (hm : Ready concrete s m.store) :
    (evalOptional eval value >>= fun v => Pure.pure (Signal.return v)).Ends m
      (fun signal m' => m.Advances m' ∧ signal.Fits returns) (m.Fails concrete) := by
  obtain ⟨rfl, rfl⟩ | ⟨ty, e, source, rfl, rfl, hsource, hacc⟩ := Stmt.checkReturn_cases hc
  · exact .bind (.pure (.pure ⟨.refl hm.typed, rfl⟩))
  · obtain ⟨hnone, hmixed⟩ := Ty.ne_of_accepts hacc
    refine .bind (.bind ((evalValue_sound he hsource hnone hm).mono (fun v m' hv => ?_)
      fun _ _ hf => hf))
    obtain ⟨w, hw, hwt⟩ := (hv.2 hmixed).coerce_of_accepts hacc
    exact .pure (.pure ⟨hv.1, ty, w, rfl, hw, hwt⟩)

theorem print_sound (he : ∀ e, Expr.Sound concrete eval e) {e : Expr} {t : Typed}
    (hc : e.check s = .ok t) (hprim : t.ty.isPrimitive) (hm : Ready concrete s m.store) :
    (evalValue eval e >>= fun v => write (v.display ++ "\n")).Ends m
      (fun _ m' => m.Advances m' ∧ True) (m.Fails concrete) := by
  refine .bind <| (evalValue_sound he hc (Ty.ne_none_of_isPrimitive hprim) hm).mono
    (fun v m' hv => ?_) fun _ _ hf => hf
  have houtput : ∀ output, m.Advances { m' with output := output } := fun output =>
    hv.1.trans ⟨.of_store rfl rfl, hv.1.typed⟩
  exact .write (fun output => ⟨houtput output, trivial⟩) fun output => ⟨houtput output, fun _ => trivial⟩

/-- The items of a range are of the type of the loop variable. -/
theorem range_sound (he : ∀ e, Expr.Sound concrete eval e) {range : Expr} {element : Ty}
    (helement : Stmt.elementType s range = .ok element) (hm : Ready concrete s m.store) :
    (evalValue eval range).Ends m
      (fun v m' => m.Advances m' ∧ ∃ items, v.elements? = some (element, items) ∧
        ∀ item ∈ items, item.HasTy element)
      (m.Fails concrete) := by
  obtain ⟨t, ht, hcases⟩ := Stmt.elementType_cases helement
  have hne : t.ty ≠ .none ∧ t.ty ≠ .list .mixed := by
    obtain ⟨hty, -⟩ | ⟨hty, hmixed⟩ := hcases
    · exact ⟨by rw [hty]; nofun, by rw [hty]; nofun⟩
    · refine ⟨fun hn => ?_, hmixed⟩
      rw [hn] at hty
      cases hty
  refine (evalValue_sound he ht hne.1 hm).mono (fun v m' hv => ⟨hv.1, ?_⟩) fun _ _ hf => hf
  obtain ⟨hstring, harray⟩ := Value.elements?_hasTy (hv.2 hne.2)
  obtain ⟨hty, rfl⟩ | ⟨hty, -⟩ := hcases
  · exact hstring (by rw [hty]; rfl)
  · exact harray element hty

theorem for_sound (he : ∀ e, Expr.Sound concrete eval e)
    (hs : ∀ stmt, Stmt.Sound concrete exec stmt) (hk : ∀ stmt, (exec stmt).Contained)
    {name : String} {range : Expr} {body : Block} {element : Ty} {frame : Store}
    (helement : Stmt.elementType s range = .ok element)
    (hr : s.newLevel.register name (.variable ⟨element, none⟩) = .ok frame)
    (hbody : Stmt.checkAll frame.newLevel returns body = .ok ())
    (hconcrete : concrete → Stmt.AllConcrete body) (hm : Ready concrete s m.store) :
    (evalValue eval range >>= fun v =>
      match v.elements? with
      | some (element, items) => forEach name element (block exec body) items
      | none => fail .invalidRange).Ends m
      (fun signal m' => m.Advances m' ∧ signal.Fits returns) (m.Fails concrete) := by
  refine .bind <| (range_sound he helement hm).mono (fun v m' hv => ?_) fun _ _ hf => hf
  obtain ⟨ha, items, hitems, hall⟩ := hv
  simp only [hitems]
  exact ha.ends (forEach_sound hs hk hr hbody hconcrete hall (hm.advance ha))

end Statements

theorem execStep_sound (he : ∀ e, Expr.Sound concrete eval e)
    (hs : ∀ stmt, Stmt.Sound concrete exec stmt) (hk : ∀ stmt, (exec stmt).Contained) (n : Nat)
    (stmt : Stmt) : Stmt.Sound concrete (execStep limit eval exec n) stmt := by
  intro s s' returns m₀ hc hconcrete hm
  refine .bind (.setLocation ?_)
  have hm : Ready concrete s ({ m₀ with location := some stmt.loc } : Machine).store := hm
  generalize ({ m₀ with location := some stmt.loc } : Machine) = m at hm ⊢
  match stmt with
  | .declare loc name ty initializer => exact declare_sound he hc hconcrete hm
  | .define loc name params result body =>
    obtain ⟨frame, hbind, hbody⟩ := Stmt.check_define hc
    obtain ⟨σ, hσ, hready⟩ := hm.define hbind hbody hconcrete
    exact .bind (.update_ok (.declare _ _) hσ (.pure ⟨hready.typed, trivial, fun _ => hready⟩))
  | .expr _ e =>
    obtain ⟨rfl, t, ht⟩ := Stmt.check_expr hc
    cases e with
    | call name args => exact leads_of_advances hm (next_sound (call_sound he hs hk ht hm))
    | _ =>
      refine leads_of_advances hm (next_sound (Q := fun _ _ => True) ((he _ _ t _ ht hm).mono
        (fun _ _ h => ⟨h.advances, trivial⟩)
        fun _ _ hf => ⟨hf.advances, fun h => hf.expected ⟨h, nofun⟩⟩))
  | .return _ value =>
    obtain ⟨rfl, hr⟩ := Stmt.check_return hc
    exact leads_of_advances hm (return_sound he hr hm)
  | .print _ e =>
    obtain ⟨rfl, t, ht, hprim⟩ := Stmt.check_print hc
    refine leads_of_advances hm ?_
    have hprint := print_sound he ht hprim hm
    have hnext : Ends _ m (fun signal m' => m.Advances m' ∧ Signal.Fits returns signal)
        (m.Fails concrete) := next_sound hprint
    rw [bind_assoc] at hnext
    exact hnext
  | .read _ target =>
    obtain ⟨rfl, t, ht, hprim, hd⟩ := Stmt.check_read hc
    exact leads_of_advances hm (next_sound (readInto_sound he ht hprim hd hm))
  | .cond _ condition thenBlock elseBlock =>
    obtain ⟨rfl, hcondition, hthen, helse⟩ := Stmt.check_cond hc
    refine leads_of_advances hm (.bind <| (evalCondition_sound he hcondition hm).mono
      (fun b m' ha => ?_) fun _ _ hf => hf)
    cases elseBlock with
    | none =>
      split
      · exact ha.ends (block_sound hs hk hthen hconcrete (hm.advance ha))
      · exact .pure ⟨ha, trivial⟩
    | some block =>
      split
      · exact ha.ends (block_sound hs hk hthen (fun h => (hconcrete h).1) (hm.advance ha))
      · exact ha.ends (block_sound hs hk (helse block rfl) (fun h => (hconcrete h).2)
          (hm.advance ha))
  | .while loc condition body =>
    obtain ⟨rfl, hcondition, hbody⟩ := Stmt.check_while hc
    exact leads_of_advances hm (repeatWhile_sound
      (fun m hm => evalCondition_sound he hcondition hm)
      (fun m hm => block_sound hs hk hbody hconcrete hm) n hm)
  | .for _ name range body =>
    obtain ⟨rfl, element, frame, helement, hr, hbody⟩ := Stmt.check_for hc
    exact leads_of_advances hm (for_sound he hs hk helement hr hbody hconcrete hm)

end Exec

open Exec in
theorem eval_exec_sound (concrete : Prop) (limit n : Nat) :
    (∀ e, Expr.Sound concrete (Expr.eval limit n) e) ∧
      ∀ stmt, Stmt.Sound concrete (Stmt.exec limit n) stmt := by
  induction n with
  | zero => exact ⟨fun _ _ _ _ _ _ => .exhausted, fun _ _ _ _ _ _ _ _ => .exhausted⟩
  | succ n ih =>
    obtain ⟨he, hs⟩ := ih
    have hk := Stmt.exec_contained limit n
    exact ⟨fun e => evalStep_sound he hs hk e, fun stmt => execStep_sound he hs hk n stmt⟩

/-- An expression comes to what the checker says. -/
theorem Expr.eval_sound (concrete : Prop) (limit n : Nat) (e : Expr) :
    e.Sound concrete (Expr.eval limit n) :=
  (eval_exec_sound concrete limit n).1 e

/-- A statement leads to where the checker says. -/
theorem Stmt.exec_sound (concrete : Prop) (limit n : Nat) (stmt : Stmt) :
    stmt.Sound concrete (Stmt.exec limit n) :=
  (eval_exec_sound concrete limit n).2 stmt

end Offside
