import Offside.Proofs.Typing.Agreement

/-!
What a checked expression comes to. If the parts of an expression come to what the checker says,
then so does the expression.
-/

namespace Offside

theorem Ty.ne_none_of_isPrimitive {t : Ty} (h : t.isPrimitive) : t ≠ .none := by
  rintro rfl
  cases h

theorem Ty.stored_of_isPrimitive {t : Ty} (h : t.isPrimitive) : t.stored = t := by
  obtain rfl | rfl | rfl := Ty.cases_of_isPrimitive h <;> rfl

theorem Ty.isPlain_of_isPrimitive {t : Ty} (h : t.isPrimitive) : t.isPlain := by
  obtain rfl | rfl | rfl := Ty.cases_of_isPrimitive h <;> rfl

def Expr.isCall : Expr → Bool
  | .call _ _ => true
  | _ => false

/-- What the checker says of an expression is true of what it comes to. -/
def Evaluated.HasTy (s : Store) (ev : Evaluated) (t : Typed) : Prop :=
  match ev, t.denotes with
  | .slot place, .slot => s.SlotTy place t.ty
  | .value v, .value => v.HasTy t.ty.stored
  | _, _ => False

theorem Evaluated.hasTy_slot {s : Store} {place : Slot} {t : Typed}
    (h : (Evaluated.slot place).HasTy s t) : t.denotes = .slot ∧ s.SlotTy place t.ty := by
  unfold HasTy at h
  cases hd : t.denotes with
  | slot =>
    rw [hd] at h
    exact ⟨rfl, h⟩
  | value =>
    rw [hd] at h
    exact h.elim

theorem Evaluated.hasTy_value {s : Store} {v : Value} {t : Typed}
    (h : (Evaluated.value v).HasTy s t) : t.denotes = .value ∧ v.HasTy t.ty.stored := by
  unfold HasTy at h
  cases hd : t.denotes with
  | slot =>
    rw [hd] at h
    exact h.elim
  | value =>
    rw [hd] at h
    exact ⟨rfl, h⟩

/-- A slot can be read. -/
def Evaluated.Loads (s : Store) (ev : Evaluated) : Prop :=
  ∀ slot, ev = .slot slot → ∃ v, s.load slot = .ok v

theorem Evaluated.loads_value (s : Store) (v : Value) : (Evaluated.value v).Loads s := by
  intro slot h
  cases h

theorem Evaluated.HasTy.of_shape {s s' : Store} (h : s'.shape = s.shape) {ev : Evaluated} {t : Typed}
    (ht : ev.HasTy s t) : ev.HasTy s' t := by
  obtain ⟨ty, denotes⟩ := t
  cases ev with
  | slot place =>
    cases denotes with
    | slot => exact Store.SlotTy.of_shape h ht
    | value => exact ht
  | value v =>
    cases denotes with
    | slot => exact ht
    | value => exact ht

/-- All levels are kept, and all variables still have values of their types. -/
structure Machine.Advances (m m' : Machine) : Prop where
  keeps : m.Keeps m'
  typed : m'.store.WellTyped

theorem Machine.Advances.refl {m : Machine} (h : m.store.WellTyped) : m.Advances m :=
  ⟨.refl m, h⟩

theorem Machine.Advances.trans {m m' m'' : Machine} (h : m.Advances m') (h' : m'.Advances m'') :
    m.Advances m'' :=
  ⟨h.keeps.trans h'.keeps, h'.typed⟩

theorem Ready.advance {concrete : Prop} {s : Store} {m m' : Machine}
    (h : Ready concrete s m.store) (ha : m.Advances m') : Ready concrete s m'.store :=
  h.keeps ha.keeps ha.typed

/-- What an expression of the type `t` may come to, with the machine behind it. Of a list whose
elements disagree no type is known. -/
structure Machine.Yields (m : Machine) (t : Typed) (ev : Evaluated) (m' : Machine) : Prop where
  advances : m.Advances m'
  loads : ev.Loads m'.store
  hasTy : t.ty ≠ .list .mixed → ev.HasTy m'.store t

/-- The faults that there may be if `strict` holds. -/
structure Machine.Fails (strict : Prop) (m : Machine) (f : RuntimeFault) (m' : Machine) : Prop where
  advances : m.Advances m'
  expected : strict → f.cause.Expected

/-- What is known from a later machine on, is known from an earlier one on. -/
theorem Machine.Advances.ends {α : Type} {P : α → Prop} {strict : Prop} {x : Exec α}
    {m m' : Machine} (ha : m.Advances m')
    (h : x.Ends m' (fun a m'' => m'.Advances m'' ∧ P a) (m'.Fails strict)) :
    x.Ends m' (fun a m'' => m.Advances m'' ∧ P a) (m.Fails strict) :=
  h.mono (fun _ _ h => ⟨ha.trans h.1, h.2⟩) fun _ _ hf => ⟨ha.trans hf.advances, hf.expected⟩

/-- The expression comes to what the checker says. A call may have no result where none is asked
for. -/
def Expr.Sound (concrete : Prop) (eval : Expr → Exec Evaluated) (e : Expr) : Prop :=
  ∀ s t m, e.check s = .ok t → Ready concrete s m.store →
    (eval e).Ends m (m.Yields t) (m.Fails (concrete ∧ (e.isCall → t.ty ≠ .none)))

/-- A result that is returned fits the type of the function around the statement. -/
def Signal.Fits (returns : Option Ty) : Signal → Prop
  | .next => True
  | .return none => returns = some .none
  | .return (some v) => ∃ ty w, returns = some ty ∧ v.coerce ty = some w ∧ w.HasTy ty

/-- The statement leads to where the checker says. -/
structure Stmt.Leads (concrete : Prop) (s : Store) (returns : Option Ty) (signal : Signal)
    (m : Machine) : Prop where
  typed : m.store.WellTyped
  fits : signal.Fits returns
  ready : signal = .next → Ready concrete s m.store

def Stmt.Sound (concrete : Prop) (exec : Stmt → Exec Signal) (stmt : Stmt) : Prop :=
  ∀ s s' returns m, stmt.check s returns = .ok s' → (concrete → stmt.Concrete) →
    Ready concrete s m.store →
    (exec stmt).Ends m (Stmt.Leads concrete s' returns)
      fun f m' => m'.store.WellTyped ∧ (concrete → f.cause.Expected)

namespace Exec

variable {concrete : Prop} {eval : Expr → Exec Evaluated} {exec : Stmt → Exec Signal}

theorem valueOf_sound {ev : Evaluated} {t : Typed} {m : Machine} (hm : m.store.WellTyped)
    (hl : ev.Loads m.store) (ht : t.ty ≠ .list .mixed → ev.HasTy m.store t) :
    (valueOf ev).Ends m
      (fun v m' => m' = m ∧ (t.ty ≠ .list .mixed → v.HasTy t.ty.stored)) fun _ _ => False := by
  cases ev with
  | slot slot =>
    obtain ⟨v, hv⟩ := hl slot rfl
    unfold valueOf load
    refine .lookup (fun w hw => ⟨rfl, fun hne => ?_⟩) fun e he => ?_
    · obtain ⟨u, hu, hut⟩ | ⟨hu, -⟩ := hm.load (Evaluated.hasTy_slot (ht hne)).2
      · rw [hw] at hu
        cases hu
        rw [Ty.stored_of_isPlain hut.isPlain]
        exact hut
      · rw [hw] at hu
        cases hu
    · rw [hv] at he
      cases he
  | value v => exact .pure ⟨rfl, fun hne => (Evaluated.hasTy_value (ht hne)).2⟩

theorem evalValue_sound (he : ∀ e, Expr.Sound concrete eval e) {s : Store} {e : Expr} {t : Typed}
    {m : Machine} (hc : e.check s = .ok t) (hn : t.ty ≠ .none) (hm : Ready concrete s m.store) :
    (evalValue eval e).Ends m
      (fun v m' => m.Advances m' ∧ (t.ty ≠ .list .mixed → v.HasTy t.ty.stored))
      (m.Fails concrete) := by
  refine .bind <| (he e s t m hc hm).mono (fun ev m' hev => ?_)
    fun f m' hf => ⟨hf.advances, fun h => hf.expected ⟨h, fun _ => hn⟩⟩
  obtain ⟨ha, hl, ht⟩ := hev
  refine (valueOf_sound ha.typed hl ht).mono (fun v m'' hv => ?_) fun _ _ hf => hf.elim
  obtain ⟨rfl, hv⟩ := hv
  exact ⟨ha, hv⟩

theorem evalAll_sound {α : Type} {R : Expr → α → Prop} {Q : Value → α → Prop} {s : Store}
    (he : ∀ e a m, R e a → Ready concrete s m.store → (evalValue eval e).Ends m
      (fun v m' => m.Advances m' ∧ Q v a) (m.Fails concrete))
    {es : List Expr} {as : List α} (h : List.Forall₂ R es as) {m : Machine}
    (hm : Ready concrete s m.store) :
    (evalAll eval es).Ends m (fun vs m' => m.Advances m' ∧ List.Forall₂ Q vs as)
      (m.Fails concrete) := by
  induction h generalizing m with
  | nil => exact .pure ⟨.refl hm.typed, .nil⟩
  | @cons e a es as hea _ ih =>
    refine .bind <| (he e a m hea hm).mono (fun v m₁ hv => ?_) fun _ _ hf => hf
    obtain ⟨ha, hq⟩ := hv
    refine .bind <| (ih (hm.advance ha)).mono (fun vs m₂ hvs => ?_)
      fun _ _ hf => ⟨ha.trans hf.1, hf.2⟩
    exact .pure ⟨ha.trans hvs.1, .cons hq hvs.2⟩

/-- Where a computation from a value of the wanted kind leads. -/
theorem ofExcept_sound {r : Except RuntimeError Value} {t : Ty} (h : Computes r t) {m : Machine} :
    (ofExcept r).Ends m (fun v m' => m' = m ∧ v.HasTy t)
      fun f m' => m' = m ∧ f.cause.Expected := by
  unfold Computes at h
  refine .ofExcept (fun v hv => ?_) fun cause hc => ?_
  · rw [hv] at h
    exact ⟨rfl, h⟩
  · rw [hc] at h
    exact ⟨rfl, h⟩

theorem load_sound {slot : Slot} {t : Ty} {m : Machine} (hm : m.store.WellTyped)
    (hs : m.store.SlotTy slot t) :
    (load slot).Ends m (fun v m' => m' = m ∧ m.store.load slot = .ok v ∧ v.HasTy t)
      fun f m' => m' = m ∧ f.cause.Expected := by
  unfold load
  refine .lookup (fun v hv => ?_) fun e he => ?_
  · obtain ⟨u, hu, hut⟩ | ⟨hu, -⟩ := hm.load hs
    · rw [hv] at hu
      cases hu
      exact ⟨rfl, hv, hut⟩
    · rw [hv] at hu
      cases hu
  · obtain ⟨u, hu, hut⟩ | ⟨hu, -⟩ := hm.load hs
    · rw [he] at hu
      cases hu
    · rw [he] at hu
      cases hu
      exact ⟨rfl, trivial⟩

theorem character_sound (s : String) (index : Float) {m : Machine} :
    (ofExcept (Value.character s index) >>= fun v => Pure.pure (Evaluated.value v)).Ends m
      (fun ev m' => m' = m ∧ ev.Loads m.store ∧ ev.HasTy m.store ⟨.string, .value⟩)
      fun f m' => m' = m ∧ f.cause.Expected := by
  refine .bind <| (ofExcept_sound (Value.character_computes s index)).mono
    (fun v m' hv => ?_) fun _ _ hf => hf
  obtain ⟨rfl, hv⟩ := hv
  exact .pure ⟨rfl, Evaluated.loads_value _ v, hv⟩

theorem element_sound {container : Evaluated} {t u : Typed} {m : Machine}
    (hm : m.store.WellTyped) (hc : container.HasTy m.store t) (hu : t.element? = some u)
    (index : Float) :
    (element container index).Ends m
      (fun ev m' => m' = m ∧ ev.Loads m.store ∧ ev.HasTy m.store u)
      fun f m' => m' = m ∧ f.cause.Expected := by
  cases container with
  | slot slot =>
    obtain ⟨hd, hs⟩ := Evaluated.hasTy_slot hc
    refine .bind <| (load_sound hm hs).mono (fun v m' hv => ?_) fun _ _ hf => hf
    obtain ⟨rfl, hload, hv⟩ := hv
    obtain ⟨hty, hue⟩ | ⟨hty, -, hue⟩ := Typed.element?_cases hu
    · obtain ⟨s, rfl⟩ := (hty ▸ hv).string_inv
      subst hue
      exact character_sound s index
    · rw [Ty.stored_of_isPlain hv.isPlain] at hty
      rw [hty] at hv hs
      obtain ⟨items, rfl, -⟩ := hv.array_inv
      refine .bind (.ofExcept (fun p _ => ?_) fun cause hcause => ⟨rfl, ?_⟩)
      · refine .pure ⟨rfl, fun slot' he => ?_, ?_⟩
        · cases he
          exact ⟨_, Store.load_index hload (List.getElem?_eq_getElem p.isLt)⟩
        · obtain ⟨w, hw, hdig⟩ := hs
          unfold Evaluated.HasTy
          rw [hue, hd]
          refine ⟨w, hw, ?_⟩
          simp only [Slot.index, List.length_append, List.length_cons, List.length_nil]
          exact Ty.dig_succ hdig
      · have ho : RuntimeError.arrayIndex.Expected := trivial
        exact Value.position_expected ho hcause
  | value v =>
    obtain ⟨hd, hv⟩ := Evaluated.hasTy_value hc
    obtain ⟨hty, hue⟩ | ⟨hty, -, hue⟩ := Typed.element?_cases hu
    · rw [hty] at hv
      obtain ⟨s, rfl⟩ := hv.string_inv
      subst hue
      exact character_sound s index
    · rw [hty] at hv
      obtain ⟨items, rfl, hitems⟩ := hv.array_inv
      refine .bind <| (ofExcept_sound (Value.element_computes hitems index)).mono
        (fun w m' hw => ?_) fun _ _ hf => hf
      obtain ⟨rfl, hw⟩ := hw
      refine .pure ⟨rfl, Evaluated.loads_value _ w, ?_⟩
      unfold Evaluated.HasTy
      rw [hue, hd]
      simp only
      rw [Ty.stored_of_isPlain hw.isPlain]
      exact hw

theorem store_sound {slot : Slot} {t : Ty} {new : Value} {m : Machine} (hm : m.store.WellTyped)
    (hvalid : m.store.Valid) (hs : m.store.SlotTy slot t)
    (hnew : ∃ w, new.coerce t = some w ∧ w.HasTy t) :
    (update (·.put slot new)).Ends m
      (fun _ m' => m.Advances m' ∧ m'.store.SlotTy slot t ∧ ∃ v, m'.store.load slot = .ok v)
      fun f m' => m' = m ∧ f.cause.Expected := by
  refine .update (.put slot new) (fun s hst => ?_) fun e he => ?_
  · obtain ⟨s', hs', hty, hl⟩ | ⟨herror, -⟩ := hm.store hvalid hs hnew
    · rw [hst] at hs'
      cases hs'
      obtain ⟨hshape, hcount⟩ := Store.shape_store hst
      exact ⟨⟨⟨hshape, Nat.le_of_eq hcount.symm, rfl⟩, hty⟩, hs.of_shape hshape, hl⟩
    · rw [hst] at herror
      cases herror
  · obtain ⟨s', hs', -⟩ | ⟨herror, -⟩ := hm.store hvalid hs hnew
    · rw [he] at hs'
      cases hs'
    · rw [he] at herror
      cases herror
      exact ⟨rfl, trivial⟩

section Parts

variable {s : Store} {t : Typed} {m : Machine}

theorem computed_sound {r : Except RuntimeError Value} {ty : Ty} (hr : Computes r ty)
    {m₁ : Machine} (ha : m.Advances m₁) :
    (ofExcept r >>= fun v => Pure.pure (Evaluated.value v)).Ends m₁ (m.Yields ⟨ty, .value⟩)
      (m.Fails concrete) := by
  refine .bind <| (ofExcept_sound hr).mono (fun v m₂ hv => ?_) fun f m₂ hf => ?_
  · obtain ⟨rfl, hv⟩ := hv
    refine .pure ⟨ha, Evaluated.loads_value _ v, fun _ => ?_⟩
    unfold Evaluated.HasTy
    simp only
    rw [Ty.stored_of_isPlain hv.isPlain]
    exact hv
  · obtain ⟨rfl, hf⟩ := hf
    exact ⟨ha, fun _ => hf⟩

theorem list_sound (he : ∀ e, Expr.Sound concrete eval e) {es : List Expr}
    (hc : (Expr.list es).check s = .ok t) (hm : Ready concrete s m.store) :
    (evalAll eval es >>= fun vs => Pure.pure (Evaluated.value (.ofList vs))).Ends m (m.Yields t) (m.Fails concrete) := by
  obtain ⟨types, htypes, rfl⟩ := Expr.check_list hc
  have hall := evalAll_sound (Q := fun v ty => ty ≠ Ty.list .mixed → v.HasTy ty.stored)
    (fun e ty m hty hm => by
      obtain ⟨hn, d, hd⟩ := hty
      exact evalValue_sound he hd hn hm)
    (Expr.checkElements_ok htypes) hm
  refine .bind <| hall.mono (fun vs m' hvs => ?_) fun _ _ hf => hf
  exact .pure ⟨hvs.1, Evaluated.loads_value _ _, fun hne => Value.hasTy_ofList hvs.2 hne⟩

theorem identifier_sound {name : String} (hc : (Expr.identifier name).check s = .ok t)
    (hm : Ready concrete s m.store) :
    (lookup (·.resolve name) >>= fun slot => Pure.pure (Evaluated.slot slot)).Ends m (m.Yields t) fun _ _ => False := by
  obtain ⟨v, hv, rfl⟩ := Expr.check_identifier hc
  obtain ⟨slot, hr, hpath, hslot⟩ := hm.resolve hv
  refine .bind (.lookup_ok hr (.pure ⟨.refl hm.typed, fun slot' he => ?_, fun _ => hslot⟩))
  cases he
  obtain ⟨w, hw, -⟩ | ⟨-, w, value, -, -, ho⟩ := hm.typed.load hslot
  · exact ⟨w, hw⟩
  · obtain ⟨before, i, after, -, -, he, -⟩ := ho
    rw [hpath] at he
    simp at he

theorem unary_sound (he : ∀ e, Expr.Sound concrete eval e) {op : UnaryOp} {arg : Expr}
    (hc : (Expr.unary op arg).check s = .ok t) (hm : Ready concrete s m.store) :
    (evalValue eval arg >>= fun v => ofExcept (op.apply v) >>= fun w =>
      Pure.pure (Evaluated.value w)).Ends m (m.Yields t) (m.Fails concrete) := by
  obtain ⟨a, ty, ha, hop, rfl⟩ := Expr.check_unary hc
  have hprim := UnaryOp.isPrimitive_of_resultType? hop
  refine .bind <| (evalValue_sound he ha (Ty.ne_none_of_isPrimitive hprim) hm).mono
    (fun v m₁ hv => ?_) fun _ _ hf => hf
  have hv' := hv.2 (Ty.ne_mixed_of_isPrimitive hprim)
  rw [Ty.stored_of_isPrimitive hprim] at hv'
  exact computed_sound (UnaryOp.apply_computes hop hv') hv.1

theorem operation_sound (he : ∀ e, Expr.Sound concrete eval e) {op : Operation} {lhs rhs : Expr}
    (hc : (Expr.binary lhs (.operation op) rhs).check s = .ok t) (hm : Ready concrete s m.store) :
    (evalValue eval lhs >>= fun v => evalValue eval rhs >>= fun w =>
      ofExcept (op.apply v w) >>= fun u => Pure.pure (Evaluated.value u)).Ends m (m.Yields t) (m.Fails concrete) := by
  obtain ⟨left, right, hl, hr, hb⟩ := Expr.check_binary hc
  obtain ⟨ty, hop, rfl⟩ := BinaryOp.check_operation hb
  obtain ⟨hlp, hrp⟩ := Operation.isPrimitive_of_resultType? hop
  refine .bind <| (evalValue_sound he hl (Ty.ne_none_of_isPrimitive hlp) hm).mono
    (fun v m₁ hv => ?_) fun _ _ hf => hf
  have hv' := hv.2 (Ty.ne_mixed_of_isPrimitive hlp)
  rw [Ty.stored_of_isPrimitive hlp] at hv'
  refine .bind <| (evalValue_sound he hr (Ty.ne_none_of_isPrimitive hrp) (hm.advance hv.1)).mono
    (fun w m₂ hw => ?_) fun _ _ hf => ⟨hv.1.trans hf.1, hf.2⟩
  have hw' := hw.2 (Ty.ne_mixed_of_isPrimitive hrp)
  rw [Ty.stored_of_isPrimitive hrp] at hw'
  exact computed_sound (Operation.apply_computes hop hv' hw') (hv.1.trans hw.1)

/-- The container is evaluated before the index, and read after it. -/
theorem index_sound (he : ∀ e, Expr.Sound concrete eval e) {lhs rhs : Expr}
    (hc : (Expr.binary lhs .index rhs).check s = .ok t) (hm : Ready concrete s m.store) :
    (index eval lhs rhs).Ends m (m.Yields t) (m.Fails concrete) := by
  obtain ⟨left, right, hl, hr, hb⟩ := Expr.check_binary hc
  obtain ⟨helement, hnumber⟩ := BinaryOp.check_index hb
  have hleft : left.ty ≠ .list .mixed ∧ left.ty ≠ .none := by
    obtain ⟨hty, -⟩ | ⟨hty, hne, -⟩ := Typed.element?_cases helement
    · exact ⟨by rw [hty]; nofun, by rw [hty]; nofun⟩
    · refine ⟨hne, fun hn => ?_⟩
      rw [hn] at hty
      cases hty
  refine .bind <| (he lhs s left m hl hm).mono (fun container m₁ hy => ?_)
    fun f m₁ hf => ⟨hf.advances, fun h => hf.expected ⟨h, fun _ => hleft.2⟩⟩
  have hm₁ := hm.advance hy.advances
  refine .bind <| (evalValue_sound he hr (by rw [hnumber]; nofun) hm₁).mono
    (fun v m₂ hv => ?_) fun _ _ hf => ⟨hy.advances.trans hf.advances, hf.expected⟩
  have hv' := hv.2 (by rw [hnumber]; nofun)
  rw [hnumber] at hv'
  obtain ⟨x, rfl⟩ := hv'.number_inv
  have hcontainer := Evaluated.HasTy.of_shape hv.1.keeps.shape (hy.hasTy hleft.1)
  refine (element_sound (hm₁.advance hv.1).typed hcontainer helement x).mono
    (fun ev m₃ h => ?_) fun f m₃ hf => ?_
  · obtain ⟨rfl, hloads, hty⟩ := h
    exact ⟨hy.advances.trans hv.1, hloads, fun _ => hty⟩
  · obtain ⟨rfl, hf⟩ := hf
    exact ⟨hy.advances.trans hv.1, fun _ => hf⟩

/-- Whatever is stored into the slot of an assignment fits there, and the slot can be read then. -/
theorem assigned_sound {slot : Slot} {ty : Ty} {new : Value} {m₁ : Machine}
    (hm : Ready concrete s m₁.store) (ha : m.Advances m₁) (hs : m₁.store.SlotTy slot ty)
    (hnew : ∃ w, new.coerce ty = some w ∧ w.HasTy ty) :
    (update (·.put slot new) >>= fun _ => Pure.pure (Evaluated.slot slot)).Ends m₁
      (m.Yields ⟨ty, .slot⟩) (m.Fails concrete) := by
  refine .bind <| (store_sound hm.typed hm.valid hs hnew).mono (fun _ m₂ h => ?_) fun f m₂ hf => ?_
  · obtain ⟨ha', hs', hload⟩ := h
    refine .pure ⟨ha.trans ha', fun slot' he => ?_, fun _ => hs'⟩
    cases he
    exact hload
  · obtain ⟨rfl, hf⟩ := hf
    exact ⟨ha, fun _ => hf⟩

/-- An assignment with an operation reads its slot before it stores there. -/
theorem operated_sound {slot : Slot} {ty ty' : Ty} {op : Operation} {v : Value} {m₁ : Machine}
    (hop : op.resultType? ty ty' = some ty) (hm : Ready concrete s m₁.store)
    (ha : m.Advances m₁) (hs : m₁.store.SlotTy slot ty) (hv : v.HasTy ty') :
    (load slot >>= fun old => ofExcept (op.apply old v) >>= fun new =>
      update (·.put slot new) >>= fun _ => Pure.pure (Evaluated.slot slot)).Ends m₁
      (m.Yields ⟨ty, .slot⟩) (m.Fails concrete) := by
  refine .bind <| (load_sound hm.typed hs).mono (fun old m₂ hold => ?_) fun f m₂ hf => ?_
  · obtain ⟨rfl, -, hold⟩ := hold
    refine .bind <| (ofExcept_sound (Operation.apply_computes hop hold hv)).mono
      (fun new m₂ hnew => ?_) fun f m₂ hf => ?_
    · obtain ⟨rfl, hnew⟩ := hnew
      exact assigned_sound hm ha hs hnew.coerce_self
    · obtain ⟨rfl, hf⟩ := hf
      exact ⟨ha, fun _ => hf⟩
  · obtain ⟨rfl, hf⟩ := hf
    exact ⟨ha, fun _ => hf⟩

theorem assignment_types {lhs : Expr} {base : Option Operation} {left right : Typed}
    (h : (BinaryOp.assign base).check lhs left right = .ok t) :
    left.denotes = .slot ∧ t = ⟨left.ty, .slot⟩ ∧ left.ty.isPlain ∧ right.ty ≠ .none ∧
      right.ty ≠ .list .mixed := by
  cases base with
  | none =>
    obtain ⟨hd, ha, rfl⟩ := BinaryOp.check_assign h
    exact ⟨hd, rfl, Ty.isPlain_of_isConcrete (Ty.isConcrete_of_accepts ha), Ty.ne_of_accepts ha⟩
  | some op =>
    obtain ⟨hd, hop, rfl⟩ := BinaryOp.check_assign_of h
    obtain ⟨hlp, hrp⟩ := Operation.isPrimitive_of_resultType? hop
    exact ⟨hd, rfl, Ty.isPlain_of_isPrimitive hlp, Ty.ne_none_of_isPrimitive hrp,
      Ty.ne_mixed_of_isPrimitive hrp⟩

/-- The target is evaluated before the new value. It is the same slot still when that is stored. -/
theorem assign_sound (he : ∀ e, Expr.Sound concrete eval e) {lhs rhs : Expr}
    {base : Option Operation} (hc : (Expr.binary lhs (.assign base) rhs).check s = .ok t)
    (hm : Ready concrete s m.store) :
    (assign eval lhs base rhs).Ends m (m.Yields t) (m.Fails concrete) := by
  obtain ⟨left, right, hl, hr, hb⟩ := Expr.check_binary hc
  obtain ⟨hd, rfl, hplain, hnone, hmixed⟩ := assignment_types hb
  have hleft : left.ty ≠ .list .mixed := by
    intro hn
    rw [hn] at hplain
    cases hplain
  refine .bind <| (he lhs s left m hl hm).mono (fun ev m₁ hy => ?_) fun f m₁ hf => ?_
  · have hev := hy.hasTy hleft
    cases ev with
    | value v =>
      have := (Evaluated.hasTy_value hev).1
      rw [hd] at this
      cases this
    | slot slot =>
      obtain ⟨-, hslot⟩ := Evaluated.hasTy_slot hev
      have hm₁ := hm.advance hy.advances
      refine .bind (.pure ?_)
      refine .bind <| (evalValue_sound he hr hnone hm₁).mono (fun v m₂ hv => ?_)
        fun _ _ hf => ⟨hy.advances.trans hf.advances, hf.expected⟩
      obtain ⟨ha, hv⟩ := hv
      have hm₂ := hm₁.advance ha
      have hslot' := hslot.of_shape ha.keeps.shape
      cases base with
      | none =>
        obtain ⟨-, hac, -⟩ := BinaryOp.check_assign hb
        refine .bind (.pure ?_)
        exact assigned_sound hm₂ (hy.advances.trans ha) hslot'
          ((hv hmixed).coerce_of_accepts hac)
      | some op =>
        obtain ⟨-, hop, -⟩ := BinaryOp.check_assign_of hb
        obtain ⟨-, hrp⟩ := Operation.isPrimitive_of_resultType? hop
        have hv' := hv hmixed
        rw [Ty.stored_of_isPrimitive hrp] at hv'
        exact operated_sound hop hm₂ (hy.advances.trans ha) hslot' hv'
  · refine ⟨hf.advances, fun h => hf.expected ⟨h, fun hcall hn => ?_⟩⟩
    -- a call is no slot
    cases lhs with
    | call name args =>
      obtain ⟨g, scope, -, -, -, rfl⟩ := Expr.check_call hl
      cases hd
    | _ => cases hcall

end Parts

end Exec

end Offside
