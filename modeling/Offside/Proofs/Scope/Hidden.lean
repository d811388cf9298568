import Offside.Proofs.Scope.Sight

/-!
Stores that differ out of sight only. From a scope some of the bindings are visible, and of two
stores that agree on these, one is a recast of the other one.
-/

namespace Offside

namespace Store

/-- What can be seen in a scope: the bindings on its level and outwards, up to the nearest horizon
met on the way. -/
def visibleIn (s : Store) (scope : Scope) : List (Nat × Binding) :=
  s.visibleFrom scope.level (some scope.horizon)

/-- The stores differ in nothing but the values of variables that are not visible in the scope. -/
structure AgreeIn (scope : Scope) (s t : Store) : Prop where
  shape : t.shape = s.shape
  count : t.nextId = s.nextId
  visible : t.visibleIn scope = s.visibleIn scope

/-- What is not visible in the scope is bound as before, variables to the same values. -/
def KeepsHidden (scope : Scope) (s t : Store) : Prop :=
  ∀ (i : Nat) level b, s.levels[i]? = some level → b ∈ level.bindings →
    (i, b) ∉ s.visibleIn scope → ∃ level', t.levels[i]? = some level' ∧ b ∈ level'.bindings

/-- The binding with this number. -/
def bindingOf? (s : Store) (id : Nat) : Option Binding :=
  (s.levels.toList.flatMap Level.bindings).find? fun b => b.id = id

variable {s t : Store}

theorem mem_bindings {b : Binding} : b ∈ s.levels.toList.flatMap Level.bindings ↔
    ∃ (i : Nat) (level : Level), s.levels[i]? = some level ∧ b ∈ level.bindings := by
  rw [List.mem_flatMap]
  constructor
  · rintro ⟨level, hl, hb⟩
    obtain ⟨i, hl⟩ := Array.mem_iff_getElem?.mp (Array.mem_toList_iff.mp hl)
    exact ⟨i, level, hl, hb⟩
  · rintro ⟨i, level, hl, hb⟩
    exact ⟨level, Array.mem_toList_iff.mpr (Array.mem_of_getElem? hl), hb⟩

theorem bindingOf?_eq (hs : s.Valid) {i : Nat} {level : Level} {b : Binding}
    (hl : s.levels[i]? = some level) (hb : b ∈ level.bindings) : s.bindingOf? b.id = some b := by
  cases hc : s.bindingOf? b.id with
  | none =>
    have := List.find?_eq_none.mp hc b (mem_bindings.mpr ⟨i, level, hl, hb⟩)
    simp at this
  | some c =>
    obtain ⟨j, level', hl', hcm⟩ := mem_bindings.mp (List.mem_of_find?_eq_some hc)
    have hid : c.id = b.id := by simpa using List.find?_some hc
    rw [(hs.binding_ext hl' hl hcm hb hid).2]

theorem bindingOf?_eq_none (hs : s.Valid) {id : Nat} (h : s.nextId ≤ id) :
    s.bindingOf? id = none := by
  refine List.find?_eq_none.mpr fun b hb => ?_
  obtain ⟨i, level, hl, hb⟩ := mem_bindings.mp hb
  have := hs.counted i level hl b hb
  simp only [decide_eq_true_eq]
  omega

/-- Numbers stand for bindings, so it can be seen from the number whether a binding is visible. -/
theorem mem_visibleIn_iff (hs : s.Valid) {scope : Scope} {i : Nat} {level : Level} {b : Binding}
    (hl : s.levels[i]? = some level) (hb : b ∈ level.bindings) :
    (i, b) ∈ s.visibleIn scope ↔ ∃ found ∈ s.visibleIn scope, found.2.id = b.id := by
  refine ⟨fun h => ⟨(i, b), h, rfl⟩, fun ⟨⟨j, c⟩, hm, hid⟩ => ?_⟩
  obtain ⟨-, level', hl', hc⟩ := mem_visibleFrom hs hm
  obtain ⟨rfl, rfl⟩ := hs.binding_ext hl' hl hc hb hid
  exact hm

theorem AgreeIn.refl (scope : Scope) (s : Store) : AgreeIn scope s s :=
  ⟨rfl, rfl, rfl⟩

theorem AgreeIn.valid {scope : Scope} (h : AgreeIn scope s t) (hs : s.Valid) : t.Valid :=
  hs.of_shape h.shape (Nat.le_of_eq h.count.symm)

end Store

theorem map_eq_of_erase {f : Binding → Binding} {bs cs : List Binding}
    (he : cs.map Binding.erase = bs.map Binding.erase)
    (h : ∀ b ∈ bs, ∀ c ∈ cs, c.erase = b.erase → f b = c) : bs.map f = cs := by
  induction bs generalizing cs with
  | nil =>
    cases List.map_eq_nil_iff.mp he
    rfl
  | cons b bs ih =>
    obtain ⟨c, cs, rfl, hc, hcs⟩ := List.map_eq_cons_iff.mp he
    rw [List.map_cons, h b (by simp) c (by simp) hc]
    refine congrArg _ (ih hcs fun b hb c hc => ?_)
    exact h b (List.mem_cons_of_mem _ hb) c (List.mem_cons_of_mem _ hc)

namespace Recast

/-- What is not visible in the scope, and was bound by then, has the value that it has in the other
store. -/
def beyond (scope : Scope) (t : Store) : Recast :=
  ⟨0, fun id =>
    if ∃ found ∈ t.visibleIn scope, found.2.id = id then none
    else (t.bindingOf? id).bind fun b =>
      match b.entry with
      | .variable v => some v.value
      | .function _ => none⟩

variable {scope : Scope} {s s₁ t : Store}

theorem beyond_visible {found : Nat × Binding} (h : found ∈ t.visibleIn scope) :
    (beyond scope t).other found.2.id = none :=
  if_pos ⟨found, h, rfl⟩

theorem beyond_unbound (ht : t.Valid) {id : Nat} (h : t.nextId ≤ id) :
    (beyond scope t).other id = none := by
  simp [beyond, Store.bindingOf?_eq_none ht h]

/-- A binding becomes the one with its number in the other store, unless it is visible. -/
theorem beyond_binding (ht : t.Valid) {i : Nat} {level : Level} {b c : Binding}
    (hl : t.levels[i]? = some level) (hc : c ∈ level.bindings) (he : c.erase = b.erase)
    (hv : (i, c) ∈ t.visibleIn scope → b = c) : (beyond scope t).binding b = c := by
  obtain ⟨name, id, e⟩ := b
  obtain ⟨name', id', e'⟩ := c
  simp only [Binding.erase, Binding.mk.injEq] at he
  obtain ⟨rfl, rfl, he⟩ := he
  cases e with
  | function f =>
    cases e' with
    | function g =>
      cases he
      rfl
    | «variable» w => cases he
  | «variable» v =>
    cases e' with
    | function g => cases he
    | «variable» w =>
      obtain ⟨ty, value⟩ := v
      obtain ⟨ty', value'⟩ := w
      cases he
      by_cases hm : (i, (⟨name', id', .variable ⟨ty, value'⟩⟩ : Binding)) ∈ t.visibleIn scope
      · rw [hv hm, binding_of_spared (beyond_visible hm)]
        rfl
      · rw [Store.mem_visibleIn_iff ht hl hc] at hm
        have hof := Store.bindingOf?_eq ht hl hc
        simp only at hm hof
        simp [binding, entry, beyond, hm, hof]

/-- A store is recast to any other one that agrees with it in the scope. -/
theorem beyond_store (hs : s.Valid) (h : s.AgreeIn scope t) : (beyond scope t).store s = t := by
  have ht := h.valid hs
  have hlevels : s.levels.map (beyond scope t).level = t.levels := by
    apply Array.ext_getElem?
    intro i
    rw [Array.getElem?_map]
    cases hl : t.levels[i]? with
    | none =>
      have hd := Array.getElem?_eq_none_iff.mp hl
      have hsize := Store.depth_of_shape h.shape
      unfold Store.depth at hsize
      rw [Array.getElem?_eq_none (by omega)]
      rfl
    | some level' =>
      obtain ⟨level, hl', he⟩ := Store.levels_of_shape h.shape hl
      rw [hl', Option.map_some, Option.some.injEq]
      obtain ⟨bs, parent⟩ := level
      obtain ⟨cs, parent'⟩ := level'
      simp only [Level.erase, Level.mk.injEq] at he
      obtain ⟨hbs, rfl⟩ := he
      unfold Recast.level
      simp only [parent_of_offset (r := beyond scope t) rfl, Level.mk.injEq, and_true]
      refine map_eq_of_erase hbs.symm fun b hb c hc he => beyond_binding ht hl hc he fun hm => ?_
      rw [h.visible] at hm
      obtain ⟨-, level, hlevel, hcs⟩ := Store.mem_visibleFrom hs hm
      have hid : b.erase.id = c.erase.id := congrArg Binding.id he.symm
      exact (hs.binding_ext hl' hlevel hb hcs hid).2
  obtain ⟨levels, nextId⟩ := t
  simp only [store, hlevels, Store.mk.injEq, true_and]
  exact h.count.symm

/-- The frame of a call in the scope sees nothing that differs. -/
theorem beyond_spares (hs : s.Valid) (h : s.AgreeIn scope t) (hd : scope.level < s.depth) :
    (beyond scope t).Spares (s.newFrame scope) where
  visible found hf := by
    rw [Store.visible_newFrame hd] at hf
    exact beyond_visible (h.visible.symm ▸ hf)
  unbound id hid := beyond_unbound (h.valid hs) (h.count ▸ hid)

section After

variable (hs : s.Valid) (h : s.AgreeIn scope t) (hshape : s₁.shape = s.shape)

include h hshape

/-- In the scope nothing differs as long as no level is opened or dropped. -/
theorem agreeIn_beyond : s₁.AgreeIn scope ((beyond scope t).store s₁) where
  shape := shape_store rfl s₁
  count := rfl
  visible := by
    have hsame := (beyond scope t).visibleFrom_store s₁ scope.level (some scope.horizon)
    refine Eq.trans hsame ((List.map_congr_left fun found hf => ?_).trans (List.map_id _))
    have hshapes := Store.visibleFrom_of_shape hshape scope.level (some scope.horizon)
    obtain ⟨found', hf', hid⟩ := Store.exists_of_erase hshapes hf
    have hspared : (beyond scope t).other found.2.id = none := by
      rw [← hid]
      exact beyond_visible (h.visible.symm ▸ hf')
    rw [binding_of_spared hspared]
    rfl

include hs

theorem keepsHidden_beyond : t.KeepsHidden scope ((beyond scope t).store s₁) := by
  intro i level' c hl hc hm
  obtain ⟨level, hl₁, he⟩ := Store.levels_of_shape (h.shape.trans hshape.symm) hl
  refine ⟨_, by rw [levels_store, hl₁]; rfl, ?_⟩
  have hce : c.erase ∈ level.bindings.map Binding.erase := by
    rw [show level.bindings.map Binding.erase = level'.bindings.map Binding.erase from
      congrArg Level.bindings he]
    exact List.mem_map_of_mem hc
  obtain ⟨b, hb, hbe⟩ := List.mem_map.mp hce
  have hbc := beyond_binding (h.valid hs) hl hc hbe.symm fun hv => absurd hv hm
  exact hbc ▸ List.mem_map_of_mem hb

end After

end Recast

end Offside
