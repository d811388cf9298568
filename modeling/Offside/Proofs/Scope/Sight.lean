import Offside.Proofs.Scope.Shape

/-!
Slots in sight are those that a name resolves to. When a store is recast but no variable in sight
gets another value, then reading and writing such slots is the same as before.
-/

namespace Offside

/-- The name of the slot resolves to the variable that the slot belongs to. -/
def Store.Shows (s : Store) (slot : Slot) : Prop :=
  s.resolve slot.name = .ok ⟨slot.level, slot.name, []⟩

namespace Store

variable {s t : Store} {slot : Slot}

theorem shows_of_resolve {name : String} (h : s.resolve name = .ok slot) : s.Shows slot := by
  have hname : slot.name = name ∧ slot.path = [] := by
    unfold resolve at h
    split at h <;> cases h
    exact ⟨rfl, rfl⟩
  obtain ⟨level, _, _⟩ := slot
  obtain ⟨rfl, rfl⟩ := hname
  exact h

theorem Shows.of_shape (hs : s.Shows slot) (h : t.shape = s.shape) : t.Shows slot := by
  unfold Shows
  rw [resolve_of_shape h]
  exact hs

theorem Shows.find? (h : s.Shows slot) :
    ∃ b v, s.find? slot.name = some (slot.level, b) ∧ b.entry = .variable v := by
  unfold Shows resolve at h
  split at h
  · case h_1 i name id v hf =>
    cases h
    exact ⟨_, v, hf, rfl⟩
  · cases h
  · cases h

end Store

/-- Nothing that is in sight has another value, and nothing that is still to be bound will have
one. -/
structure Recast.Spares (r : Recast) (s : Store) : Prop where
  visible : ∀ found ∈ s.visible, r.other found.2.id = none
  unbound : ∀ id, s.nextId ≤ id → r.other id = none

namespace Recast

variable {r : Recast} {s t : Store}

namespace Spares

theorem of_shape (hr : r.Spares s) (h : t.shape = s.shape) (hn : s.nextId ≤ t.nextId) :
    r.Spares t where
  visible found hf := by
    obtain ⟨found', hf', hid⟩ := Store.exists_of_erase (Store.visible_of_shape h) hf
    exact hid ▸ hr.visible found' hf'
  unbound id hid := hr.unbound id (Nat.le_trans hn hid)

theorem newLevel (hr : r.Spares s) (hd : 0 < s.depth) : r.Spares s.newLevel where
  visible found hf := hr.visible found (by rwa [Store.visible_newLevel hd] at hf)
  unbound := hr.unbound

theorem extend (hr : r.Spares s) (hs : s.Valid) (hd : 0 < s.depth) (name : String)
    (entry : Entry) : r.Spares (s.extend name entry) where
  visible found hf := by
    rw [Store.visible_extend hd hs] at hf
    obtain rfl | hf := List.mem_cons.mp hf
    · exact hr.unbound _ (Nat.le_refl _)
    · exact hr.visible found hf
  unbound id hid := hr.unbound id (Nat.le_of_succ_le hid)

/-- A function that is in sight sees nothing but what is in sight. -/
theorem newFrame (hr : r.Spares s) (hs : s.Valid) {name : String} {f : Function} {scope : Scope}
    (h : s.lookupFunction name = .ok (f, scope)) : r.Spares (s.newFrame scope) where
  visible found hf := by
    obtain ⟨b, hb, hid, -⟩ := Store.find?_of_lookupFunction h
    obtain ⟨-, -, before, after, hv, hframe⟩ := Store.visible_of_find? hs hb
    rw [hid] at hframe
    rw [hframe] at hf
    refine hr.visible found ?_
    rw [hv]
    exact List.mem_append_right before hf
  unbound := hr.unbound

theorem found (hr : r.Spares s) (hs : s.Valid) {name : String} {i : Nat} {b : Binding}
    (h : s.find? name = some (i, b)) : r.other b.id = none := by
  obtain ⟨-, -, before, after, hv, -⟩ := Store.visible_of_find? hs h
  exact hr.visible (i, b) (by simp [hv])

end Spares

theorem binding_of_spared {b : Binding} (h : r.other b.id = none) :
    r.binding b = ⟨b.name, b.id + r.offset, b.entry⟩ := by
  obtain ⟨name, id, entry⟩ := b
  cases entry with
  | «variable» v => simp [binding, entry, h]
  | function f => rfl

/-- What is written to a binding that is spared is as it is written. -/
theorem map_binding_setFirst {name : String} {bindings : List Binding} {b : Binding}
    (hf : bindings.find? (fun b => b.name = name) = some b) (h : r.other b.id = none)
    (held : Option Value) :
    (Binding.setFirst name held bindings).map r.binding =
      Binding.setFirst name held (bindings.map r.binding) := by
  induction bindings with
  | nil => rfl
  | cons c bindings ih =>
    by_cases hn : c.name = name
    · obtain rfl : c = b := by simpa [hn] using hf
      have hset : r.binding ⟨c.name, c.id, c.entry.setValue held⟩ =
          ⟨c.name, c.id + r.offset, c.entry.setValue held⟩ :=
        binding_of_spared h
      simp [Binding.setFirst, hn, binding_of_spared h, hn ▸ hset]
    · have hname : (r.binding c).name = c.name := rfl
      simp [Binding.setFirst, hn, hname, ih (by simpa [hn] using hf)]

section Slots

variable {slot : Slot} (hs : s.Valid) (hr : r.Spares s) (h : s.Shows slot)

include hs hr h

theorem variableAt_store : (r.store s).variableAt slot = s.variableAt slot := by
  obtain ⟨b, v, hb, hv⟩ := h.find?
  obtain ⟨-, ⟨level, hl, hf⟩, -⟩ := Store.visible_of_find? hs hb
  unfold Store.variableAt
  rw [levels_store, hl, Option.map_some, Option.bind_some, Option.bind_some, find?_level, hf,
    Option.map_some, binding_of_spared (hr.found hs hb), hv]
  obtain ⟨name, id, entry⟩ := b
  cases hv
  rfl

theorem load_store : (r.store s).load slot = s.load slot := by
  unfold Store.load
  rw [variableAt_store hs hr h]

theorem level_setValue {level : Level} (hl : s.levels[slot.level]? = some level)
    (held : Option Value) :
    r.level (level.setValue slot.name held) = (r.level level).setValue slot.name held := by
  obtain ⟨b, v, hb, hv⟩ := h.find?
  obtain ⟨-, ⟨level', hl', hf⟩, -⟩ := Store.visible_of_find? hs hb
  cases hl.symm.trans hl'
  simp only [Recast.level, Level.setValue, map_binding_setFirst hf (hr.found hs hb) held]

theorem store_store (value : Value) :
    (r.store s).store slot value = (s.store slot value).map r.store := by
  rw [Store.store_eq, Store.store_eq, variableAt_store hs hr h]
  cases s.variableAt slot with
  | error e => rfl
  | ok v =>
    dsimp only
    cases Store.changed slot value v with
    | error e => rfl
    | ok value =>
      simp only [Except.map, Except.ok.injEq, store, Store.mk.injEq, and_true]
      exact (map_modify fun level hl => level_setValue hs hr h hl (some value)).symm

end Slots

end Recast

end Offside
