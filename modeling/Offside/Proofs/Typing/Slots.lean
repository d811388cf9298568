import Offside.Proofs.Scope.Operations
import Offside.Proofs.Scope.Shape
import Offside.Proofs.Typing.Paths

/-!
Stores whose variables have values of their types. Reading and writing a slot of a known type
cannot fail in such a store, unless an index in it is past the end of an array.
-/

namespace Offside

namespace Level

theorem find?_map {bs : List Binding} {f : Binding → Binding} (hf : ∀ b, (f b).name = b.name)
    (name : String) :
    (bs.map f).find? (fun b => b.name = name) = (bs.find? fun b => b.name = name).map f := by
  rw [List.find?_map]
  refine congrArg (fun p => (bs.find? p).map f) (funext fun b => ?_)
  simp [hf]

theorem find?_erase (level : Level) (name : String) :
    level.erase.find? name = (level.find? name).map Binding.erase :=
  find?_map (f := Binding.erase) (fun _ => rfl) name

end Level

namespace Store

/-- Every variable has a value, which is of its type. -/
def WellTyped (s : Store) : Prop :=
  ∀ (i : Nat) level, s.levels[i]? = some level → ∀ b ∈ level.bindings, ∀ v,
    b.entry = .variable v → ∃ value, v.value = some value ∧ value.HasTy v.ty

/-- The slot is part of a variable, and at its place there is something of type `t`. -/
def SlotTy (s : Store) (slot : Slot) (t : Ty) : Prop :=
  ∃ v, s.variableAt slot = .ok v ∧ v.ty.dig slot.path.length = some t

/-- The slot cannot be read, or something cannot be written to it, since it is out of bounds. -/
def Escapes (s : Store) (slot : Slot) : Prop :=
  s.load slot = .error .outOfBounds ∨ ∃ v, s.store slot v = .error .outOfBounds

/-- An index of the slot is past the end of the array that it goes into. -/
def Overrun (s : Store) (slot : Slot) : Prop :=
  ∃ v value, s.variableAt slot = .ok v ∧ v.value = some value ∧ value.Overrun slot.path

theorem load_iff {s : Store} {slot : Slot} {part : Value} : s.load slot = .ok part ↔
    ∃ ty value, s.variableAt slot = .ok ⟨ty, some value⟩ ∧ value.part? slot.path = some part := by
  unfold load
  constructor
  · intro h
    split at h
    · cases h
    · cases h
    · case h_3 ty value hv =>
      split at h
      · case h_1 hp =>
        cases h
        exact ⟨ty, value, hv, hp⟩
      · cases h
  · rintro ⟨ty, value, hv, hp⟩
    simp only [hv, hp]

/-- What is in a position of an array that is in a slot. -/
theorem load_index {s : Store} {slot : Slot} {element : Ty} {items : List Value}
    (h : s.load slot = .ok (.array element items)) {i : Nat} {item : Value}
    (hi : items[i]? = some item) : s.load (slot.index i) = .ok item := by
  obtain ⟨ty, value, hv, hp⟩ := load_iff.mp h
  exact load_iff.mpr ⟨ty, value, hv, (Value.part?_concat hp i).trans hi⟩

theorem variableAt_setValue {s : Store} {slot : Slot} {v : Variable}
    (h : s.variableAt slot = .ok v) (value : Value) :
    variableAt ⟨s.levels.modify slot.level (·.setValue slot.name (some value)), s.nextId⟩ slot =
      .ok ⟨v.ty, some value⟩ := by
  obtain ⟨level, b, hl, hf, -, -, he⟩ := variableAt_ok h
  have hl' : (s.levels.modify slot.level (·.setValue slot.name (some value)))[slot.level]? =
      some (level.setValue slot.name (some value)) := by
    rw [Array.getElem?_modify, if_pos rfl, hl]
    rfl
  exact variableAt_eq hl' (Level.find?_setValue hf he _) rfl

/-- No other variable is written to. -/
theorem variableAt_setValue_of_ne (s : Store) {slot other : Slot} (value : Value)
    (h : ¬ (slot.level = other.level ∧ slot.name = other.name)) :
    variableAt ⟨s.levels.modify slot.level (·.setValue slot.name (some value)), s.nextId⟩ other =
      s.variableAt other := by
  have hb : (s.levels.modify slot.level (·.setValue slot.name (some value)))[other.level]?.bind
      (·.find? other.name) = s.levels[other.level]?.bind (·.find? other.name) := by
    rw [Array.getElem?_modify]
    by_cases hl : slot.level = other.level
    · have hn : other.name ≠ slot.name := fun hn => h ⟨hl, hn.symm⟩
      rw [if_pos hl, Option.bind_map]
      simp only [Function.comp_def, Level.find?_setValue_of_ne _ hn]
    · rw [if_neg hl]
  unfold variableAt
  rw [hb]

theorem WellTyped.variableAt {s : Store} (hs : s.WellTyped) {slot : Slot} {v : Variable}
    (h : s.variableAt slot = .ok v) : ∃ value, v.value = some value ∧ value.HasTy v.ty := by
  obtain ⟨level, b, hl, -, hb, -, he⟩ := variableAt_ok h
  exact hs slot.level level hl b hb v he

/-- The type of a slot does not depend on values. -/
theorem SlotTy.of_shape {s t : Store} (h : t.shape = s.shape) {slot : Slot} {ty : Ty}
    (hs : s.SlotTy slot ty) : t.SlotTy slot ty := by
  obtain ⟨v, hv, hd⟩ := hs
  obtain ⟨level, b, hl, hf, -, -, he⟩ := variableAt_ok hv
  obtain ⟨level', hl', herase⟩ := levels_of_shape h.symm hl
  have hf' : (level'.find? slot.name).map Binding.erase = some b.erase := by
    rw [← Level.find?_erase, herase, Level.find?_erase, hf]
    rfl
  obtain ⟨b', hb', hbe⟩ := Option.map_eq_some_iff.mp hf'
  have hentry : b'.entry.erase = .variable ⟨v.ty, none⟩ := by
    rw [show b'.entry.erase = b.entry.erase from congrArg Binding.entry hbe, he]
    rfl
  match hbe' : b'.entry with
  | .variable v' =>
    have hty : v'.ty = v.ty := by
      rw [hbe', Entry.erase, Entry.variable.injEq, Variable.mk.injEq] at hentry
      exact hentry.1
    exact ⟨v', variableAt_eq hl' hb' hbe', by rw [hty]; exact hd⟩
  | .function f =>
    rw [hbe'] at hentry
    cases hentry

theorem WellTyped.load {s : Store} (hs : s.WellTyped) {slot : Slot} {t : Ty}
    (h : s.SlotTy slot t) :
    (∃ value, s.load slot = .ok value ∧ value.HasTy t) ∨
      s.load slot = .error .outOfBounds ∧ s.Overrun slot := by
  obtain ⟨v, hv, hd⟩ := h
  obtain ⟨value, hvalue, hty⟩ := hs.variableAt hv
  obtain ⟨ty, held⟩ := v
  cases hvalue
  unfold Store.load
  rw [hv]
  obtain ⟨part, hp, hpt⟩ | ⟨hp, ho⟩ := hty.part? hd
  · exact .inl ⟨part, by simp [hp], hpt⟩
  · exact .inr ⟨by simp [hp], ⟨ty, some value⟩, value, hv, rfl, ho⟩

theorem WellTyped.setValue {s : Store} (hs : s.WellTyped) (hvalid : s.Valid) {slot : Slot}
    {v : Variable} (hv : s.variableAt slot = .ok v) {value : Value} (ht : value.HasTy v.ty) :
    WellTyped ⟨s.levels.modify slot.level (·.setValue slot.name (some value)), s.nextId⟩ := by
  intro i level hl b hb w hw
  rw [Array.getElem?_modify] at hl
  split at hl
  · case isTrue hi =>
    subst hi
    obtain ⟨level₀, hl₀, rfl⟩ := Option.map_eq_some_iff.mp hl
    obtain ⟨c, u, hc, hcn, hce, rfl⟩ | hb₀ := Level.mem_setValue hb
    · obtain ⟨level', b', hl', -, hb', hbn', he'⟩ := variableAt_ok hv
      rw [hl₀] at hl'
      cases hl'
      -- names are unique, so the variable that is written is the one of the slot
      have hbc : c = b' := List.inj_on_of_nodup_map (hvalid.unique _ _ hl₀) hc hb' (hcn.trans hbn'.symm)
      subst hbc
      rw [hce] at he'
      cases he'
      cases hw
      exact ⟨value, rfl, ht⟩
    · exact hs _ level₀ hl₀ b hb₀ w hw
  · exact hs i level hl b hb w hw

/-- A value that fits can be put into a slot, unless the slot has an index past an end. The slot
can be read then. -/
theorem WellTyped.store {s : Store} (hs : s.WellTyped) (hvalid : s.Valid) {slot : Slot} {t : Ty}
    (h : s.SlotTy slot t) {new : Value} (hnew : ∃ w, new.coerce t = some w ∧ w.HasTy t) :
    (∃ s', s.store slot new = .ok s' ∧ s'.WellTyped ∧ ∃ value, s'.load slot = .ok value) ∨
      s.store slot new = .error .outOfBounds ∧ s.Overrun slot := by
  obtain ⟨v, hv, hd⟩ := h
  obtain ⟨old, hold, hty⟩ := hs.variableAt hv
  obtain ⟨ty, held⟩ := v
  cases hold
  rw [store_eq, hv]
  obtain ⟨value, hr, hvt, hp⟩ | ⟨hr, ho⟩ := replace_hasTy slot.name hty hd hnew
  · obtain ⟨part, hpart⟩ := Option.isSome_iff_exists.mp hp
    refine .inl ⟨_, by simp only [changed, hr], hs.setValue hvalid hv hvt, part, ?_⟩
    unfold Store.load
    rw [variableAt_setValue hv]
    simp [hpart]
  · exact .inr ⟨by simp only [changed, hr], ⟨ty, some old⟩, old, hv, rfl, ho⟩

theorem variableAt_ne_outOfBounds {s : Store} (slot : Slot) :
    s.variableAt slot ≠ .error .outOfBounds := by
  unfold variableAt
  split <;> nofun

theorem Escapes.part? {s : Store} {slot : Slot} (h : s.Escapes slot) :
    ∃ v value, s.variableAt slot = .ok v ∧ v.value = some value ∧ value.part? slot.path = none := by
  have hne := variableAt_ne_outOfBounds (s := s) slot
  obtain h | ⟨new, h⟩ := h
  · unfold Store.load at h
    split at h
    · case h_1 e he => exact absurd (he.trans (by cases h; rfl)) hne
    · cases h
    · case h_3 ty value hv =>
      split at h
      · cases h
      · case h_2 hp => exact ⟨_, value, hv, rfl, hp⟩
  · rw [store_eq] at h
    split at h
    · case h_1 e he => exact absurd (he.trans (by cases h; rfl)) hne
    · case h_2 v hv =>
      split at h
      · cases h
      · case h_2 e he =>
        cases h
        obtain ⟨ty, held⟩ := v
        cases held with
        | none =>
          unfold changed at he
          dsimp only at he
          split at he
          · unfold fit at he
            split at he <;> cases he
          · cases he
        | some value => exact ⟨_, value, hv, rfl, part?_of_replace he⟩

/-- In a well-typed store, a slot that is out of bounds has an index past an end: it never goes
into what is no array. -/
theorem WellTyped.overrun {s : Store} (hs : s.WellTyped) {slot : Slot} {t : Ty}
    (ht : s.SlotTy slot t) (h : s.Escapes slot) : s.Overrun slot := by
  obtain ⟨v, value, hv, hvalue, hp⟩ := h.part?
  obtain ⟨w, hw, hd⟩ := ht
  rw [hv] at hw
  cases hw
  obtain ⟨value', hvalue', hty⟩ := hs.variableAt hv
  rw [hvalue] at hvalue'
  cases hvalue'
  obtain ⟨part, hpart, -⟩ | ⟨-, ho⟩ := hty.part? hd
  · rw [hp] at hpart
    cases hpart
  · exact ⟨v, value, hv, hvalue, ho⟩

theorem WellTyped.slotTy_of_load {s : Store} (hs : s.WellTyped) {slot : Slot} {part : Value}
    (h : s.load slot = .ok part) : ∃ t, s.SlotTy slot t := by
  obtain ⟨ty, value, hv, hp⟩ := load_iff.mp h
  obtain ⟨held, hheld, hty⟩ := hs.variableAt hv
  cases hheld
  obtain ⟨t, hd⟩ := hty.exists_dig hp
  exact ⟨t, _, hv, hd⟩

end Store

end Offside
