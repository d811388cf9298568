import Offside.Proofs.Scope.Shape

/-!
Variables always have a value. They are bound with one, and can only get another one. Invariants of
this kind are kept by all that can be done to a store.
-/

namespace Offside

/-- A variable has a value. -/
def Entry.Filled : Entry → Prop
  | .variable v => ∃ value, v.value = some value
  | .function _ => True

theorem Entry.Filled.intro (ty : Ty) (value : Value) : Entry.Filled (.variable ⟨ty, some value⟩) :=
  ⟨value, rfl⟩

namespace Store

/-- Every variable has a value. -/
def Filled (s : Store) : Prop :=
  ∀ (i : Nat) level, s.levels[i]? = some level → ∀ b ∈ level.bindings, b.entry.Filled

/-- The property is kept when levels are opened or dropped, and when a value is bound or written. -/
structure Invariant (I : Store → Prop) : Prop where
  pushLevel : ∀ {s}, I s → ∀ parent, I (s.pushLevel parent)
  deleteLevel : ∀ {s}, I s → I s.deleteLevel
  register : ∀ {s s' : Store} {name : String} {entry : Entry}, I s → entry.Filled →
    s.register name entry = .ok s' → I s'
  store : ∀ {s s' : Store} {slot : Slot} {new : Value}, I s → s.store slot new = .ok s' → I s'

namespace Filled

variable {s s' : Store}

theorem pushLevel (h : s.Filled) (parent : Option Link) : (s.pushLevel parent).Filled := by
  intro i level hl b hb
  obtain ⟨-, hl⟩ | ⟨-, rfl⟩ := levels_pushLevel_cases hl
  · exact h i level hl b hb
  · cases hb

theorem deleteLevel (h : s.Filled) : s.deleteLevel.Filled := by
  intro i level hl b hb
  exact h i level (levels_deleteLevel_cases hl).2 b hb

/-- Where there is no level yet, one is opened for the name. -/
theorem register (h : s.Filled) {name : String} {entry : Entry} (he : entry.Filled)
    (hr : s.register name entry = .ok s') : s'.Filled := by
  rw [register_eq_match] at hr
  extract_lets levels innermost bind at hr
  have hlevels : Filled ⟨levels, s.nextId⟩ := by
    unfold levels
    split
    · intro i level hl b hb
      obtain ⟨hi, rfl⟩ := Array.getElem?_eq_some_iff.mp hl
      simp [Level.empty] at hb
    · exact h
  split at hr
  · cases hr
  · cases hr
    intro i level hl b hb
    rw [Array.getElem?_modify] at hl
    split at hl
    · obtain ⟨level', hl', rfl⟩ := Option.map_eq_some_iff.mp hl
      obtain rfl | hb := List.mem_cons.mp hb
      · exact he
      · exact hlevels i level' hl' b hb
    · exact hlevels i level hl b hb

theorem store (h : s.Filled) {slot : Slot} {new : Value} (hs : s.store slot new = .ok s') :
    s'.Filled := by
  obtain ⟨-, value, -, -, rfl⟩ := store_ok hs
  intro i level hl b hb
  rw [Array.getElem?_modify] at hl
  split at hl
  · obtain ⟨level', hl', rfl⟩ := Option.map_eq_some_iff.mp hl
    obtain ⟨c, v, -, -, -, rfl⟩ | hb := Level.mem_setValue hb
    · exact .intro v.ty value
    · exact h i level' hl' b hb
  · exact h i level hl b hb

theorem invariant : Invariant Filled where
  pushLevel h parent := h.pushLevel parent
  deleteLevel h := h.deleteLevel
  register h he hr := h.register he hr
  store h hs := h.store hs

end Filled

end Store

end Offside
