import Offside.Proofs.Typing.Tagging

/-!
What becomes of a value that is put into a slot. Nothing of it changes but the element types of its
arrays, and these come out right whatever they were before. Whether the value fits can be told from
its type alone, and the checker, which knows nothing else, tells the same.
-/

namespace Offside

namespace Ty

/-- Nothing is open in the type of a slot. -/
theorem Settles.eq_of_isConcrete {t c : Ty} (h : t.Settles c) (ht : t.isConcrete) : c = t := by
  induction h with
  | unknown => cases ht
  | array h ih => rw [ih ht]
  | _ => rfl

/-- A slot takes every type that its own settles, as long as there is a value at all. -/
theorem Settles.accepts {s t : Ty} (h : s.Settles t) (hs : s ≠ .none) (ht : t.isConcrete) :
    t.accepts s := by
  induction h with
  | unknown => exact absurd rfl hs
  | @array a b h ih =>
    have hb : b.isConcrete := ht
    by_cases ha : a = .none
    · subst ha
      exact hb
    · have hab := ih ha hb
      cases h <;> simp_all [Ty.accepts]
  | _ => rfl

theorem settles_of_merge? {s t c : Ty} (hs : s.isPlain) (ht : t.isConcrete)
    (h : s.merge? t = some c) : s.Settles t := by
  obtain ⟨hsc, htc, -⟩ := merge?_settles hs (isPlain_of_isConcrete ht) h
  rwa [htc.eq_of_isConcrete ht] at hsc

end Ty

namespace Value

mutual

/-- The value without the element types of its arrays. -/
def untagged : Value → Value
  | .array _ items => .array .none (untaggedAll items)
  | .boolean b => .boolean b
  | .number x => .number x
  | .string s => .string s

def untaggedAll : List Value → List Value
  | [] => []
  | v :: vs => v.untagged :: untaggedAll vs

end

/-- Every array in the value tells the type of its items, and it is one that values can have. -/
def WellTagged (v : Value) : Prop :=
  ∀ path element items, v.part? path = some (.array element items) →
    element.isPlain ∧ ∀ item ∈ items, item.ty = element

theorem WellTagged.item {element : Ty} {items : List Value} {item : Value}
    (h : (array element items).WellTagged) (hi : item ∈ items) : item.WellTagged := by
  intro path e es hp
  obtain ⟨i, hi⟩ := List.mem_iff_getElem?.mp hi
  exact h (i :: path) e es (Option.bind_eq_some_iff.mpr ⟨item, hi, hp⟩)

theorem WellTagged.hasTy {v : Value} (h : v.WellTagged) : v.HasTy v.ty := by
  match v with
  | .boolean b => exact .boolean b
  | .number x => exact .number x
  | .string s => exact .string s
  | .array element items =>
    obtain ⟨plain, hitems⟩ := h [] element items rfl
    refine .array plain fun item hi => ?_
    have hitem := (h.item hi).hasTy
    rwa [hitems item hi] at hitem
termination_by v
decreasing_by
  have := List.sizeOf_lt_of_mem hi
  simp only [Value.array.sizeOf_spec]
  omega

theorem HasTy.wellTagged {v : Value} {t : Ty} (h : v.HasTy t) : v.WellTagged := by
  intro path e es hp
  induction path generalizing v t with
  | nil =>
    cases hp
    cases h with
    | array plain hitems => exact ⟨plain, fun item hi => (hitems item hi).ty_eq⟩
  | cons i path ih =>
    cases h with
    | array plain hitems =>
      obtain ⟨item, hi, hp⟩ := Option.bind_eq_some_iff.mp hp
      exact ih (hitems item (List.mem_of_getElem? hi)) hp
    | _ => cases hp

/-- Only an array becomes an array, and then its items are of the element type that is wanted. -/
theorem coerce_array {element target : Ty} {items : List Value} {w : Value}
    (h : (array element items).coerce target = some w) :
    ∃ wanted ws, target = .array wanted ∧ (element = .none ∨ (element.merge? wanted).isSome) ∧
      coerceAll wanted items = some ws ∧ w = .array wanted ws := by
  cases target with
  | array wanted =>
    rw [coerce] at h
    by_cases hm : element = .none ∨ (element.merge? wanted).isSome
    · rw [if_pos hm] at h
      obtain ⟨ws, hws, rfl⟩ := Option.map_eq_some_iff.mp h
      exact ⟨wanted, ws, rfl, hm, hws, rfl⟩
    · rw [if_neg hm] at h
      cases h
  | _ => cases h

/-- Every other value fits as it is, or not at all. -/
theorem coerce_primitive {v w : Value} {target : Ty} (hv : v.ty.isPrimitive)
    (h : v.coerce target = some w) : w = v ∧ target = v.ty := by
  cases v with
  | array => cases hv
  | _ =>
    rw [coerce] at h
    split at h
    · case isTrue ht =>
      cases h
      exact ⟨rfl, ht⟩
    · cases h

theorem ty_of_coerce {v w : Value} {target : Ty} (h : v.coerce target = some w) :
    w.ty = target := by
  cases v with
  | array element items =>
    obtain ⟨wanted, ws, rfl, -, -, rfl⟩ := coerce_array h
    rfl
  | _ =>
    obtain ⟨rfl, rfl⟩ := coerce_primitive rfl h
    rfl

/-- Every item is one of the items before, as a value of the type that is wanted. -/
theorem exists_of_mem_coerceAll {target : Ty} {vs ws : List Value} {w : Value}
    (h : coerceAll target vs = some ws) (hw : w ∈ ws) : ∃ v ∈ vs, v.coerce target = some w := by
  induction vs generalizing ws with
  | nil =>
    cases h
    cases hw
  | cons v vs ih =>
    rw [coerceAll] at h
    split at h
    · case h_1 u us hu hus =>
      cases h
      obtain rfl | hw := List.mem_cons.mp hw
      · exact ⟨v, List.mem_cons_self, hu⟩
      · obtain ⟨v', hv', hc⟩ := ih hus hw
        exact ⟨v', List.mem_cons_of_mem v hv', hc⟩
    · cases h

mutual

theorem untagged_of_coerce {target : Ty} {w : Value} (v : Value) (h : v.coerce target = some w) :
    w.untagged = v.untagged := by
  match v with
  | .array element items =>
    obtain ⟨wanted, ws, -, -, hws, rfl⟩ := coerce_array h
    rw [untagged, untagged, untaggedAll_of_coerceAll items hws]
  | .boolean b | .number x | .string s => rw [(coerce_primitive rfl h).1]

theorem untaggedAll_of_coerceAll {target : Ty} {ws : List Value} (vs : List Value)
    (h : coerceAll target vs = some ws) : untaggedAll ws = untaggedAll vs := by
  match vs with
  | [] =>
    cases h
    rfl
  | v :: vs =>
    rw [coerceAll] at h
    split at h
    · case h_1 u us hu hus =>
      cases h
      rw [untaggedAll, untaggedAll, untagged_of_coerce v hu, untaggedAll_of_coerceAll vs hus]
    · cases h

end

/-- Every array in a value that was made to fit has the type of its items. -/
theorem items_of_coerce {v w : Value} {target element : Ty} {path : List Nat} {items : List Value}
    (h : v.coerce target = some w) (hp : w.part? path = some (.array element items)) :
    ∀ item ∈ items, item.ty = element := by
  -- The path leads through `w`, and the value before has an item wherever `w` has one.
  induction path generalizing v w target with
  | nil =>
    cases hp
    cases v with
    | array element' items' =>
      obtain ⟨wanted, ws, -, -, hws, hw⟩ := coerce_array h
      cases hw
      intro item hitem
      obtain ⟨u, -, hu⟩ := exists_of_mem_coerceAll hws hitem
      exact ty_of_coerce hu
    | _ => cases (coerce_primitive rfl h).1
  | cons i path ih =>
    cases v with
    | array element' items' =>
      obtain ⟨wanted, ws, -, -, hws, rfl⟩ := coerce_array h
      obtain ⟨u, hu, hp⟩ := Option.bind_eq_some_iff.mp hp
      obtain ⟨u', -, hu'⟩ := exists_of_mem_coerceAll hws (List.mem_of_getElem? hu)
      exact ih hu' hp
    | _ =>
      obtain ⟨rfl, -⟩ := coerce_primitive rfl h
      cases hp

/-- A value that tells the truth fits a slot only if its type does. -/
theorem HasTy.accepts_of_coerce {v w : Value} {t target : Ty} (hv : v.HasTy t)
    (ht : target.isConcrete) (h : v.coerce target = some w) : target.accepts t := by
  cases hv with
  | @array element items plain hitems =>
    obtain ⟨wanted, ws, rfl, hm, -, -⟩ := coerce_array h
    have hs : element.Settles wanted := by
      obtain rfl | hm := hm
      · exact .unknown wanted
      · obtain ⟨c, hc⟩ := Option.isSome_iff_exists.mp hm
        exact Ty.settles_of_merge? plain ht hc
    exact (Ty.Settles.array hs).accepts nofun ht
  | _ =>
    obtain ⟨-, rfl⟩ := coerce_primitive rfl h
    rfl

/-- A value in a slot has the type of the slot, and so has every array in it the type of its items;
all else is as before. And a value whose arrays tell the truth fits exactly where the checker lets
its type in. -/
theorem coerce_follows_types (v : Value) (target : Ty) :
    (∀ w, v.coerce target = some w → w.ty = target ∧
      (∀ path element items, w.part? path = some (.array element items) →
        ∀ item ∈ items, item.ty = element) ∧
      w.untagged = v.untagged) ∧
    (v.WellTagged → target.isConcrete → ((v.coerce target).isSome ↔ target.accepts v.ty)) := by
  constructor
  · intro w h
    refine ⟨ty_of_coerce h, fun path element items hp => ?_, untagged_of_coerce v h⟩
    exact items_of_coerce h hp
  · intro hv ht
    have hty : v.HasTy v.ty := hv.hasTy
    constructor
    · intro h
      obtain ⟨w, hw⟩ := Option.isSome_iff_exists.mp h
      exact hty.accepts_of_coerce ht hw
    · intro h
      rw [← Ty.stored_of_isPlain hty.isPlain] at hty
      obtain ⟨w, hw, -⟩ := hty.coerce_of_accepts h
      exact Option.isSome_of_eq_some hw

/-- A list of an empty list becomes an array of arrays of strings. -/
theorem coerce_follows_types_in_nested_list :
    let v : Value := .array (.array .none) [.array .none []]
    let w : Value := .array (.array .string) [.array .string []]
    v.WellTagged ∧ v.coerce w.ty = some w ∧ (w.ty.accepts v.ty ∧ w.untagged = v.untagged) ∧
      ∀ item ∈ [Value.array .string []], item.ty = .array .string := by
  have hv : (Value.array (.array .none) [.array .none []]).HasTy (.array (.array .none)) := by
    refine .array rfl fun item hitem => ?_
    obtain rfl := List.mem_singleton.mp hitem
    exact .array rfl fun item hitem => absurd hitem List.not_mem_nil
  have hw : (Value.array (.array .none) [.array .none []]).coerce (.array (.array .string)) =
      some (.array (.array .string) [.array .string []]) := rfl
  obtain ⟨hall, hfits⟩ := coerce_follows_types _ _
  obtain ⟨-, hitems, hrest⟩ := hall _ hw
  have haccepts := (hfits hv.wellTagged rfl).mp (Option.isSome_of_eq_some hw)
  exact ⟨hv.wellTagged, hw, ⟨haccepts, hrest⟩, hitems [] _ _ rfl⟩

end Value

end Offside
