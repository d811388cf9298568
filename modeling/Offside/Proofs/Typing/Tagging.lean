import Mathlib.Data.List.Forall2
import Offside.Value

/-!
Values whose arrays tell the truth: the element type that an array carries is the type of each of
its items. Whatever a checked program does with values keeps them so.
-/

namespace Offside

attribute [simp] Value.coerce Value.coerceAll

namespace Ty

/-- The type of a value. -/
def isPlain : Ty → Bool
  | .none | .boolean | .number | .string => true
  | .array element => element.isPlain
  | _ => false

/-- The second type says all that the first one says, and settles some of what it leaves open. -/
inductive Settles : Ty → Ty → Prop
  | unknown (t : Ty) : Settles .none t
  | boolean : Settles .boolean .boolean
  | number : Settles .number .number
  | string : Settles .string .string
  | array {a b : Ty} (h : Settles a b) : Settles (.array a) (.array b)

/-- The type that a value of the type has in a slot. -/
def stored : Ty → Ty
  | .list element => .array element
  | t => t

/-- The type of what stands `n` arrays deep. -/
def dig : Ty → Nat → Option Ty
  | t, 0 => some t
  | .array element, n + 1 => element.dig n
  | _, _ + 1 => Option.none

theorem isPlain_of_isConcrete {t : Ty} (h : t.isConcrete) : t.isPlain := by
  fun_induction isConcrete t <;> simp_all [isPlain]

theorem stored_of_isPlain {t : Ty} (h : t.isPlain) : t.stored = t := by
  cases t <;> simp_all [isPlain, stored]

theorem asElement_eq_stored {t : Ty} (h : t.stored.isPlain) : t.asElement = t.stored := by
  cases t with
  | list element =>
    simp only [stored, isPlain] at h
    cases element <;> simp_all [isPlain, asElement, stored]
  | _ => rfl

theorem dig_succ {t e : Ty} {n : Nat} (h : t.dig n = some (.array e)) : t.dig (n + 1) = some e := by
  induction n generalizing t with
  | zero =>
    simp only [dig, Option.some.injEq] at h
    simp [h, dig]
  | succ n ih =>
    cases t with
    | array element => exact ih h
    | _ => cases h

namespace Settles

theorem refl {t : Ty} (h : t.isPlain) : t.Settles t := by
  induction t with
  | none => exact .unknown _
  | boolean => exact .boolean
  | number => exact .number
  | string => exact .string
  | array element ih => exact .array (ih h)
  | _ => cases h

theorem trans {a b c : Ty} (hab : a.Settles b) (hbc : b.Settles c) : a.Settles c := by
  induction hab generalizing c with
  | unknown => exact .unknown c
  | boolean => exact hbc
  | number => exact hbc
  | string => exact hbc
  | array _ ih =>
    cases hbc with
    | array h => exact .array (ih h)

theorem merge? {a b : Ty} (h : a.Settles b) (hb : b.isPlain) : a.merge? b = some b := by
  induction h with
  | unknown t => cases t <;> simp_all [Ty.merge?, Ty.isPlain]
  | array h ih =>
    rw [Ty.merge?]
    simp only [Ty.array.injEq, reduceCtorEq, or_self, if_false]
    split
    · case isTrue he => rw [he]
    · rw [ih hb]
      rfl
  | _ => rfl

end Settles

theorem merge?_cases {a b c : Ty} (h : a.merge? b = some c) :
    a = c ∧ (b = c ∨ b = .none) ∨ a = .none ∧ b = c ∨
      ∃ a' b' c', a = .array a' ∧ b = .array b' ∧ c = .array c' ∧ a'.merge? b' = some c' := by
  unfold merge? at h
  split at h
  · cases h
  · split at h
    · case isTrue he =>
      cases h
      exact .inl ⟨rfl, .inl he.symm⟩
    · split at h
      · cases h
        exact .inr (.inl ⟨rfl, rfl⟩)
      · cases h
        exact .inl ⟨rfl, .inr rfl⟩
      · obtain ⟨c', hc, rfl⟩ := Option.map_eq_some_iff.mp h
        exact .inr (.inr ⟨_, _, c', rfl, rfl, rfl, hc⟩)
      · cases h

/-- The common type of two types settles both. -/
theorem merge?_settles {a b c : Ty} (ha : a.isPlain) (hb : b.isPlain) (h : a.merge? b = some c) :
    a.Settles c ∧ b.Settles c ∧ c.isPlain := by
  induction a generalizing b c with
  | array a ih =>
    obtain ⟨rfl, rfl | rfl⟩ | ⟨hn, -⟩ | ⟨a', b', c', he, rfl, rfl, hc⟩ := merge?_cases h
    · exact ⟨.refl ha, .refl ha, ha⟩
    · exact ⟨.refl ha, .unknown _, ha⟩
    · cases hn
    · cases he
      have hb' : b'.isPlain := hb
      obtain ⟨h₁, h₂, h₃⟩ := ih ha hb' hc
      exact ⟨.array h₁, .array h₂, h₃⟩
  | _ =>
    obtain ⟨rfl, rfl | rfl⟩ | ⟨hn, rfl⟩ | ⟨_, _, _, he, -⟩ := merge?_cases h
    · exact ⟨.refl ha, .refl ha, ha⟩
    · exact ⟨.refl ha, .unknown _, ha⟩
    · rw [hn]
      exact ⟨.unknown _, .refl hb, hb⟩
    · cases he

/-- What a slot takes, its type settles; and only slots that can exist take anything. -/
theorem accepts_of_isPlain {target t : Ty} (ht : t.isPlain) (h : target.accepts t) :
    t.Settles target ∧ target.isConcrete := by
  induction t generalizing target with
  | array element ih =>
    cases target with
    | array target =>
      by_cases hn : element = .none
      · subst hn
        exact ⟨.array (.unknown _), by simpa [accepts, isConcrete] using h⟩
      · have he : target.accepts element := by
          cases element <;> simp_all [accepts, isPlain, isConcrete]
        obtain ⟨hs, hc⟩ := ih ht he
        exact ⟨.array hs, by simpa [isConcrete] using hc⟩
    | _ => simp [accepts, isConcrete] at h
  | none => cases target <;> simp_all [accepts, isConcrete]
  | boolean | number | string =>
    simp only [accepts, Bool.and_eq_true, decide_eq_true_eq] at h
    rw [h.2]
    exact ⟨.refl rfl, rfl⟩
  | _ => cases ht

theorem accepts_stored {target t : Ty} (ht : t.stored.isPlain) (h : target.accepts t) :
    t.stored.Settles target ∧ target.isConcrete := by
  refine accepts_of_isPlain ht ?_
  cases t with
  | list element =>
    cases target with
    | array target => cases element <;> simp_all [accepts, stored, isPlain, isConcrete]
    | _ => simp [accepts, isConcrete] at h
  | _ => exact h

theorem isConcrete_of_accepts {target t : Ty} (h : target.accepts t) : target.isConcrete := by
  fun_induction accepts target t with
  | case7 target source =>
    simp only [Bool.and_eq_true] at h
    exact h.1
  | _ => simp_all [isConcrete]

theorem concretize?_eq {t u : Ty} (h : t.concretize? = some u) : u = t.stored ∧ u.isConcrete := by
  have he : t.concretize? = if t.stored.isConcrete then some t.stored else Option.none := by
    cases t <;> rfl
  rw [he] at h
  split at h
  · case isTrue hc =>
    cases h
    exact ⟨rfl, hc⟩
  · cases h

theorem concretize?_of_isConcrete {t : Ty} (h : t.isConcrete) : t.concretize? = some t := by
  cases t <;> simp_all [concretize?, isConcrete]

/-- What a slot takes is something, and no list whose elements disagree. -/
theorem ne_of_accepts {target t : Ty} (h : target.accepts t) : t ≠ .none ∧ t ≠ .list .mixed := by
  refine ⟨?_, ?_⟩
  · rintro rfl
    cases target <;> simp [accepts, isConcrete] at h
  · rintro rfl
    cases target <;> simp [accepts, isConcrete] at h

theorem foldlM_merge?_settles {a c : Ty} {ts : List Ty} (ha : a.isPlain)
    (hts : ∀ t ∈ ts, t.isPlain) (h : ts.foldlM merge? a = some c) :
    a.Settles c ∧ (∀ t ∈ ts, t.Settles c) ∧ c.isPlain := by
  induction ts generalizing a with
  | nil =>
    cases h
    exact ⟨.refl ha, by simp, ha⟩
  | cons t ts ih =>
    rw [List.foldlM_cons, Option.bind_eq_bind, Option.bind_eq_some_iff] at h
    obtain ⟨b, hb, h⟩ := h
    obtain ⟨hab, htb, hp⟩ := merge?_settles ha (hts t List.mem_cons_self) hb
    obtain ⟨hbc, hts, hc⟩ := ih hp (fun t ht => hts t (List.mem_cons_of_mem _ ht)) h
    refine ⟨hab.trans hbc, fun u hu => ?_, hc⟩
    obtain rfl | hu := List.mem_cons.mp hu
    · exact htb.trans hbc
    · exact hts u hu

theorem foldlM_merge?_mixed {a : Ty} {ts : List Ty} (h : .mixed ∈ ts) :
    ts.foldlM merge? a = Option.none := by
  induction ts generalizing a with
  | nil => cases h
  | cons t ts ih =>
    rw [List.foldlM_cons, Option.bind_eq_bind]
    obtain rfl | h := List.mem_cons.mp h
    · have hn : a.merge? .mixed = Option.none := by
        unfold merge?
        simp
      rw [hn]
      rfl
    · cases a.merge? t with
      | none => rfl
      | some b => exact ih h

/-- One element without a common type of its own is enough for the list to have none. -/
theorem ofListLiteral_of_mixed {ts : List Ty} (h : .list .mixed ∈ ts) :
    ofListLiteral ts = .list .mixed := by
  have hm : Ty.mixed ∈ ts.map asElement := List.mem_map.mpr ⟨_, h, rfl⟩
  unfold ofListLiteral
  cases he : ts.map asElement with
  | nil =>
    rw [he] at hm
    cases hm
  | cons t rest =>
    rw [he] at hm
    obtain rfl | hm := List.mem_cons.mp hm
    · cases rest with
      | nil => rfl
      | cons u rest =>
        have hn : Ty.mixed.merge? u = Option.none := by
          unfold merge?
          simp
        simp [List.foldlM_cons, hn]
    · simp [foldlM_merge?_mixed hm]

end Ty

namespace Value

/-- The value has the type, and every array in it the type of its items. -/
inductive HasTy : Value → Ty → Prop
  | boolean (b : Bool) : HasTy (.boolean b) .boolean
  | number (x : Float) : HasTy (.number x) .number
  | string (s : String) : HasTy (.string s) .string
  | array {element : Ty} {items : List Value} (plain : element.isPlain)
      (h : ∀ v ∈ items, HasTy v element) : HasTy (.array element items) (.array element)

namespace HasTy

variable {v : Value} {t : Ty}

theorem ty_eq (h : v.HasTy t) : v.ty = t := by
  cases h <;> rfl

theorem isPlain (h : v.HasTy t) : t.isPlain := by
  cases h with
  | array plain _ => exact plain
  | _ => rfl

theorem boolean_inv (h : v.HasTy .boolean) : ∃ b, v = .boolean b := by
  cases h with
  | boolean b => exact ⟨b, rfl⟩

theorem number_inv (h : v.HasTy .number) : ∃ x, v = .number x := by
  cases h with
  | number x => exact ⟨x, rfl⟩

theorem string_inv (h : v.HasTy .string) : ∃ s, v = .string s := by
  cases h with
  | string s => exact ⟨s, rfl⟩

theorem array_inv {element : Ty} (h : v.HasTy (.array element)) :
    ∃ items, v = .array element items ∧ ∀ item ∈ items, item.HasTy element := by
  cases h with
  | array _ h => exact ⟨_, rfl, h⟩

end HasTy

theorem coerceAll_of {t : Ty} {vs : List Value}
    (h : ∀ v ∈ vs, ∃ w, v.coerce t = some w ∧ w.HasTy t) :
    ∃ ws, coerceAll t vs = some ws ∧ ∀ w ∈ ws, w.HasTy t := by
  induction vs with
  | nil => exact ⟨[], rfl, by simp⟩
  | cons v vs ih =>
    obtain ⟨w, hw, hwt⟩ := h v List.mem_cons_self
    obtain ⟨ws, hws, hwst⟩ := ih fun v hv => h v (List.mem_cons_of_mem _ hv)
    refine ⟨w :: ws, by simp [coerceAll, hw, hws], ?_⟩
    intro u hu
    obtain rfl | hu := List.mem_cons.mp hu
    · exact hwt
    · exact hwst u hu

/-- A value fits wherever its type is settled further. -/
theorem HasTy.coerce {v : Value} {a b : Ty} (h : v.HasTy a) (hab : a.Settles b)
    (hb : b.isPlain) : ∃ w, v.coerce b = some w ∧ w.HasTy b := by
  induction h generalizing b with
  | boolean b =>
    cases hab
    exact ⟨.boolean b, rfl, .boolean b⟩
  | number x =>
    cases hab
    exact ⟨.number x, rfl, .number x⟩
  | string s =>
    cases hab
    exact ⟨.string s, rfl, .string s⟩
  | @array element items _ _ ih =>
    cases hab with
    | @array _ wanted hs =>
      have hw : wanted.isPlain := hb
      obtain ⟨ws, hws, hwst⟩ := coerceAll_of fun v hv => ih v hv hs hw
      refine ⟨.array wanted ws, ?_, .array hw hwst⟩
      simp [Value.coerce, hs.merge? hw, hws]

theorem HasTy.coerce_self {v : Value} {t : Ty} (h : v.HasTy t) :
    ∃ w, v.coerce t = some w ∧ w.HasTy t :=
  h.coerce (.refl h.isPlain) h.isPlain

/-- A value fits in the slots that take its type. -/
theorem HasTy.coerce_of_accepts {v : Value} {t target : Ty} (h : v.HasTy t.stored)
    (ha : target.accepts t) : ∃ w, v.coerce target = some w ∧ w.HasTy target := by
  obtain ⟨hs, hc⟩ := Ty.accepts_stored h.isPlain ha
  exact h.coerce hs (Ty.isPlain_of_isConcrete hc)

theorem default?_of_isConcrete {t : Ty} (h : t.isConcrete) :
    ∃ v, default? t = some v ∧ v.HasTy t := by
  cases t with
  | boolean => exact ⟨.boolean false, rfl, .boolean false⟩
  | number => exact ⟨.number 0, rfl, .number 0⟩
  | string => exact ⟨.string "", rfl, .string ""⟩
  | array element =>
    have hc : element.isConcrete := by simpa [Ty.isConcrete] using h
    exact ⟨.array element [], by simp [default?, hc],
      .array (Ty.isPlain_of_isConcrete hc) (by simp)⟩
  | _ => cases h

theorem hasTy_default? {t : Ty} {v : Value} (h : default? t = some v) : v.HasTy t := by
  by_cases hc : t.isConcrete
  · obtain ⟨w, hw, hwt⟩ := default?_of_isConcrete hc
    rw [hw] at h
    cases h
    exact hwt
  · cases t <;> simp_all [default?, Ty.isConcrete]

/-- Values fit the common type of their types. -/
theorem coerceAll_common {vs : List Value} {c : Ty} (h : ∀ v ∈ vs, v.HasTy v.ty)
    (hc : vs.foldlM (fun common item => Ty.merge? common item.ty) .none = some c) :
    c.isPlain ∧ ∃ ws, coerceAll c vs = some ws ∧ ∀ w ∈ ws, w.HasTy c := by
  have hts : ∀ t ∈ vs.map ty, t.isPlain := List.forall_mem_map.mpr fun v hv => (h v hv).isPlain
  rw [← List.foldlM_map] at hc
  obtain ⟨-, hsettles, hplain⟩ := Ty.foldlM_merge?_settles rfl hts hc
  refine ⟨hplain, coerceAll_of fun v hv => ?_⟩
  exact (h v hv).coerce (hsettles v.ty (List.mem_map_of_mem hv)) hplain

/-- The value of a list literal whose elements agree. The type of an element that is a list without
a common type says nothing of it. -/
theorem hasTy_ofList {vs : List Value} {ts : List Ty}
    (h : List.Forall₂ (fun v t => t ≠ Ty.list .mixed → v.HasTy t.stored) vs ts)
    (hne : Ty.ofListLiteral ts ≠ .list .mixed) : (ofList vs).HasTy (Ty.ofListLiteral ts).stored := by
  have hmem : Ty.list .mixed ∉ ts := fun hm => hne (Ty.ofListLiteral_of_mixed hm)
  have htys : ts.map Ty.asElement = vs.map ty ∧ ∀ v ∈ vs, v.HasTy v.ty := by
    clear hne
    induction h with
    | nil => exact ⟨rfl, by simp⟩
    | @cons v t vs ts hv _ ih =>
      rw [List.mem_cons, not_or] at hmem
      have hvt := hv fun he => hmem.1 he.symm
      obtain ⟨hs, hall⟩ := ih hmem.2
      refine ⟨by simp [hs, Ty.asElement_eq_stored hvt.isPlain, hvt.ty_eq], fun u hu => ?_⟩
      obtain rfl | hu := List.mem_cons.mp hu
      · rw [hvt.ty_eq]
        exact hvt
      · exact hall u hu
  obtain ⟨htys, hall⟩ := htys
  unfold Ty.ofListLiteral at hne ⊢
  rw [htys] at hne ⊢
  cases vs with
  | nil => exact .array rfl (by simp)
  | cons v vs =>
    simp only [List.map_cons] at hne ⊢
    cases hf : (vs.map ty).foldlM Ty.merge? v.ty with
    | none => simp [hf] at hne
    | some c =>
      have hv : v.ty.isPlain := (hall v List.mem_cons_self).isPlain
      have hfold : (v :: vs).foldlM (fun common item => Ty.merge? common item.ty) .none = some c := by
        rw [List.foldlM_cons, (Ty.Settles.unknown v.ty).merge? hv]
        rw [List.foldlM_map] at hf
        exact hf
      obtain ⟨hc, ws, hws, hwst⟩ := coerceAll_common hall hfold
      unfold ofList
      simp only [hfold, hws]
      exact .array hc hwst

end Value

end Offside
