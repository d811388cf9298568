import Offside.Proofs.Scope.Recast

/-!
The shape of a store is all of it but the values of its variables. What is visible, and where,
depends on the shape alone.
-/

namespace Offside

def Entry.erase : Entry → Entry
  | .variable v => .variable ⟨v.ty, none⟩
  | .function f => .function f

def Binding.erase (b : Binding) : Binding :=
  ⟨b.name, b.id, b.entry.erase⟩

def Level.erase (level : Level) : Level :=
  ⟨level.bindings.map Binding.erase, level.parent⟩

theorem Level.names_erase (level : Level) : level.erase.names = level.names := by
  simp [erase, names, Binding.erase]

theorem Entry.erase_setValue (entry : Entry) (held : Option Value) :
    (entry.setValue held).erase = entry.erase := by
  cases entry <;> rfl

theorem Binding.map_erase_setFirst (name : String) (held : Option Value)
    (bindings : List Binding) :
    (setFirst name held bindings).map erase = bindings.map erase := by
  induction bindings with
  | nil => rfl
  | cons b bindings ih =>
    by_cases hn : b.name = name
    · simp [setFirst, hn, erase, Entry.erase_setValue]
    · simp [setFirst, hn, ih]

theorem Level.erase_setValue (level : Level) (name : String) (held : Option Value) :
    (level.setValue name held).erase = level.erase := by
  rw [erase, setValue, Binding.map_erase_setFirst, erase]

theorem Level.names_setValue (level : Level) (name : String) (held : Option Value) :
    (level.setValue name held).names = level.names := by
  rw [← names_erase, erase_setValue, names_erase]

def Store.shape (s : Store) : Array Level :=
  s.levels.map Level.erase

/-- To take all values away is to recast a store. -/
def Recast.eraser : Recast :=
  ⟨0, fun _ => some none⟩

namespace Recast

@[simp] theorem eraser_binding (b : Binding) : eraser.binding b = b.erase := by
  obtain ⟨name, id, entry⟩ := b
  cases entry <;> rfl

@[simp] theorem eraser_horizon (last : Option Nat) : eraser.horizon last = last := by
  cases last <;> rfl

theorem eraser_level (level : Level) : eraser.level level = level.erase := by
  have hb : eraser.binding = Binding.erase := funext eraser_binding
  unfold Recast.level
  rw [parent_of_offset rfl, hb]
  rfl

theorem eraser_store (s : Store) : eraser.store s = ⟨s.shape, s.nextId⟩ := by
  have hl : eraser.level = Level.erase := funext eraser_level
  unfold store Store.shape
  rw [hl]
  rfl

/-- Other values do not change the shape. -/
theorem shape_store {r : Recast} (h : r.offset = 0) (s : Store) :
    (r.store s).shape = s.shape := by
  unfold Store.shape store
  rw [Array.map_map]
  refine Array.map_congr_left fun level _ => ?_
  unfold Level.erase Recast.level
  simp only [Function.comp_apply, parent_of_offset h, List.map_map, Level.mk.injEq, and_true]
  refine List.map_congr_left fun b _ => ?_
  obtain ⟨name, id, entry⟩ := b
  cases entry <;> simp [binding, entry, h, Binding.erase, Entry.erase]

end Recast

namespace Store

/-- The names in scope with what is known of them before anything runs, the nearest first. -/
def context (s : Store) : List (String × Entry) :=
  s.visible.map fun entry => (entry.2.name, entry.2.entry.erase)

theorem levels_of_shape {s t : Store} (h : t.shape = s.shape) {i : Nat} {level : Level}
    (hl : t.levels[i]? = some level) :
    ∃ level', s.levels[i]? = some level' ∧ level'.erase = level.erase := by
  have he : (t.levels[i]?).map Level.erase = (s.levels[i]?).map Level.erase := by
    have := congrArg (fun a : Array Level => a[i]?) h
    simpa [shape] using this
  rw [hl] at he
  obtain ⟨level', hl', he'⟩ := Option.map_eq_some_iff.mp he.symm
  exact ⟨level', hl', he'⟩

theorem depth_of_shape {s t : Store} (h : t.shape = s.shape) : t.depth = s.depth := by
  have := congrArg Array.size h
  simpa [shape, depth] using this

theorem visibleFrom_erase (s : Store) (i : Nat) (horizon : Option Nat) :
    visibleFrom ⟨s.shape, s.nextId⟩ i horizon =
      (s.visibleFrom i horizon).map fun entry => (entry.1, entry.2.erase) := by
  rw [← Recast.eraser_store]
  simpa using Recast.eraser.visibleFrom_store s i horizon

/-- A search depends on the levels alone. -/
theorem find?_congr {s t : Store} (h : t.levels = s.levels) (name : String) :
    t.find? name = s.find? name := by
  have hfrom (i : Nat) (horizon : Option Nat) :
      t.findFrom name i horizon = s.findFrom name i horizon := by
    induction i using Nat.strongRecOn generalizing horizon with
    | ind i ih =>
      rw [findFrom, findFrom, h]
      cases s.levels[i]? with
      | none => rfl
      | some level =>
        cases hv : level.visible? name horizon with
        | some b => simp [hv]
        | none =>
          cases hp : level.parent with
          | none => simp [hv, hp]
          | some link =>
            by_cases hlt : link.level < i
            · simpa [hv, hp, hlt] using ih link.level hlt _
            · simp [hv, hp, hlt]
  unfold find? depth
  rw [h]
  split
  · rfl
  · exact hfrom _ none

/-- A name resolves to the same slot, whatever the values are. -/
theorem resolve_of_shape {s t : Store} (h : t.shape = s.shape) (name : String) :
    t.resolve name = s.resolve name := by
  rw [← Recast.resolve_store .eraser t, ← Recast.resolve_store .eraser s, Recast.eraser_store,
    Recast.eraser_store, h]
  unfold resolve
  rw [find?_congr (s := ⟨s.shape, s.nextId⟩) (t := ⟨s.shape, t.nextId⟩) rfl]

theorem lookupFunction_of_shape {s t : Store} (h : t.shape = s.shape) (name : String) :
    t.lookupFunction name = s.lookupFunction name := by
  have herase (u : Store) : u.lookupFunction name = lookupFunction ⟨u.shape, u.nextId⟩ name := by
    rw [← Recast.eraser_store, Recast.lookupFunction_store]
    cases u.lookupFunction name <;> rfl
  rw [herase t, herase s, h]
  unfold lookupFunction
  rw [find?_congr (s := ⟨s.shape, s.nextId⟩) (t := ⟨s.shape, t.nextId⟩) rfl]

theorem visibleFrom_of_shape {s t : Store} (h : t.shape = s.shape) (i : Nat)
    (horizon : Option Nat) :
    ((t.visibleFrom i horizon).map fun entry => (entry.1, entry.2.erase)) =
      (s.visibleFrom i horizon).map fun entry => (entry.1, entry.2.erase) := by
  rw [← visibleFrom_erase, ← visibleFrom_erase]
  exact visibleFrom_congr (fun j _ => by simp [h]) horizon

theorem visible_of_shape {s t : Store} (h : t.shape = s.shape) :
    (t.visible.map fun entry => (entry.1, entry.2.erase)) =
      s.visible.map fun entry => (entry.1, entry.2.erase) := by
  unfold visible
  rw [depth_of_shape h]
  split
  · rfl
  · exact visibleFrom_of_shape h _ none

/-- What is visible in one of the stores is visible in the other one, under the same number. -/
theorem exists_of_erase {xs ys : List (Nat × Binding)} {found : Nat × Binding}
    (h : (xs.map fun entry => (entry.1, entry.2.erase)) =
      ys.map fun entry => (entry.1, entry.2.erase))
    (hf : found ∈ xs) : ∃ found' ∈ ys, found'.2.id = found.2.id := by
  have hm : (found.1, found.2.erase) ∈ ys.map fun entry => (entry.1, entry.2.erase) :=
    h ▸ List.mem_map_of_mem hf
  obtain ⟨found', hf', he⟩ := List.mem_map.mp hm
  have hid : found'.2.erase.id = found.2.erase.id := congrArg (fun entry => entry.2.id) he
  exact ⟨found', hf', hid⟩

theorem context_of_shape {s t : Store} (h : t.shape = s.shape) : t.context = s.context := by
  have := congrArg (List.map fun entry : Nat × Binding => (entry.2.name, entry.2.entry))
    (visible_of_shape h)
  simpa [context, List.map_map, Function.comp_def, Binding.erase] using this

theorem locals_of_shape {s t : Store} (h : t.shape = s.shape) : t.locals = s.locals := by
  have he : (t.levels[t.depth - 1]?).map Level.erase = (s.levels[s.depth - 1]?).map Level.erase := by
    rw [depth_of_shape h]
    have := congrArg (fun a : Array Level => a[s.depth - 1]?) h
    simpa [shape] using this
  unfold locals
  cases ht : t.levels[t.depth - 1]? with
  | none =>
    rw [ht] at he
    rw [Option.map_eq_none_iff.mp he.symm]
  | some level =>
    rw [ht] at he
    obtain ⟨level', hl', he'⟩ := Option.map_eq_some_iff.mp he.symm
    rw [hl']
    simp only
    rw [← Level.names_erase, ← Level.names_erase level', he']

@[simp] theorem shape_deleteLevel (s : Store) : s.deleteLevel.shape = s.shape.pop := by
  simp [deleteLevel, shape]

theorem shape_extend (s : Store) (name : String) (entry : Entry) :
    (s.extend name entry).shape = s.shape.modify (s.depth - 1) fun level =>
      ⟨⟨name, s.nextId, entry.erase⟩ :: level.bindings, level.parent⟩ := by
  unfold shape extend
  rw [map_modify]
  exact fun _ _ => rfl

theorem store_ok {s s' : Store} {slot : Slot} {new : Value} (h : s.store slot new = .ok s') :
    ∃ v value, s.variableAt slot = .ok v ∧ changed slot new v = .ok value ∧
      s' = ⟨s.levels.modify slot.level (·.setValue slot.name (some value)), s.nextId⟩ := by
  rw [store_eq] at h
  split at h
  · cases h
  · case h_2 v hv =>
    split at h
    · case h_1 value hvalue =>
      cases h
      exact ⟨v, value, hv, hvalue, rfl⟩
    · cases h

/-- Nothing but a value changes when a value is stored. -/
theorem shape_store {s s' : Store} {slot : Slot} {v : Value} (h : s.store slot v = .ok s') :
    s'.shape = s.shape ∧ s'.nextId = s.nextId := by
  obtain ⟨-, value, -, -, rfl⟩ := store_ok h
  have hid : ∀ level, s.levels[slot.level]? = some level →
      (level.setValue slot.name (some value)).erase = id level.erase :=
    fun level _ => level.erase_setValue slot.name (some value)
  unfold shape
  refine ⟨?_, rfl⟩
  rw [map_modify hid]
  apply Array.ext_getElem?
  simp [Array.getElem?_modify]

theorem Valid.of_shape {s t : Store} (hs : s.Valid) (h : t.shape = s.shape)
    (hn : s.nextId ≤ t.nextId) : t.Valid := by
  have same : ∀ (i : Nat) level, t.levels[i]? = some level →
      ∃ level', s.levels[i]? = some level' ∧ level.names = level'.names ∧
        level.parent = level'.parent ∧
        level.bindings.map Binding.id = level'.bindings.map Binding.id := by
    intro i level hl
    obtain ⟨level', hl', he⟩ := levels_of_shape h hl
    refine ⟨level', hl', ?_, ?_, ?_⟩
    · rw [← Level.names_erase, ← he, Level.names_erase]
    · exact (congrArg Level.parent he).symm
    · have := congrArg (fun l : Level => l.bindings.map Binding.id) he
      simpa [Level.erase, Binding.erase, Function.comp_def] using this.symm
  have mem : ∀ {l l' : Level}, l.bindings.map Binding.id = l'.bindings.map Binding.id →
      ∀ b ∈ l.bindings, ∃ b' ∈ l'.bindings, b'.id = b.id := by
    intro l l' he b hb
    have hm : b.id ∈ l'.bindings.map Binding.id := he ▸ List.mem_map_of_mem hb
    exact List.mem_map.mp hm
  constructor
  · intro i level hl
    obtain ⟨level', hl', hnames, -, -⟩ := same i level hl
    exact hnames ▸ hs.unique i level' hl'
  · intro i level hl
    obtain ⟨level', hl', -, -, hids⟩ := same i level hl
    have hp : (level'.bindings.map Binding.id).Pairwise fun a b => b < a :=
      List.pairwise_map.mpr (hs.newest i level' hl')
    exact List.pairwise_map.mp (hids ▸ hp)
  · intro i level hl b hb
    obtain ⟨level', hl', -, -, hids⟩ := same i level hl
    obtain ⟨b', hb', he⟩ := mem hids b hb
    have := hs.counted i level' hl' b' hb'
    omega
  · intro i level link hl hp
    obtain ⟨level', hl', -, hparent, -⟩ := same i level hl
    exact hs.outward i level' link hl' (hparent ▸ hp)
  · intro i j low high hij hl hh a ha b hb
    obtain ⟨low', hl', -, -, hlow⟩ := same i low hl
    obtain ⟨high', hh', -, -, hhigh⟩ := same j high hh
    obtain ⟨a', ha', hea⟩ := mem hlow a ha
    obtain ⟨b', hb', heb⟩ := mem hhigh b hb
    have := hs.layered i j low' high' hij hl' hh' a' ha' b' hb'
    omega

end Store

end Offside
