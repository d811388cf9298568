import Offside.Proofs.Scope.Operations

/-!
A store that is recast is the same up to the numbers of its bindings, all of which are shifted, and
up to the values of some of its variables. Neither matters to a search for a name: it looks at the
order of the numbers only.
-/

namespace Offside

theorem map_modify {α β : Type} {f : α → α} {f' : β → β} {g : α → β} {items : Array α} {i : Nat}
    (h : ∀ a, items[i]? = some a → g (f a) = f' (g a)) :
    (items.modify i f).map g = (items.map g).modify i f' := by
  apply Array.ext_getElem?
  intro j
  simp only [Array.getElem?_map, Array.getElem?_modify]
  split
  · case isTrue hij =>
    subst hij
    cases hi : items[i]? with
    | none => rfl
    | some a => simp [h a hi]
  · rfl

/-- A search goes along with a change of all levels that changes bindings and horizons alike. -/
theorem Store.findFrom_map {s t : Store} {onLevel : Level → Level} {onBinding : Binding → Binding}
    {h : Option Nat → Option Nat}
    (hlevels : ∀ i : Nat, t.levels[i]? = (s.levels[i]?).map onLevel)
    (hvisible : ∀ (level : Level) name last,
      (onLevel level).visible? name (h last) = (level.visible? name last).map onBinding)
    (hparent : ∀ level : Level, (onLevel level).parent =
      level.parent.map fun link => ⟨link.level, h link.horizon⟩)
    (hnarrow : ∀ last last', narrow (h last) (h last') =
      h (narrow last last'))
    (name : String) (i : Nat) (last : Option Nat) :
    t.findFrom name i (h last) =
      (s.findFrom name i last).map fun found => (found.1, onBinding found.2) := by
  induction i using Nat.strongRecOn generalizing last with
  | ind i ih =>
    rw [findFrom, findFrom, hlevels]
    cases s.levels[i]? with
    | none => rfl
    | some level =>
      simp only [Option.map_some, hvisible, hparent]
      cases level.visible? name last with
      | some b => rfl
      | none =>
        cases level.parent with
        | none => rfl
        | some link =>
          simp only [Option.map_some, Option.map_none, hnarrow]
          by_cases hlt : link.level < i
          · rw [if_pos hlt, if_pos hlt]
            exact ih link.level hlt _
          · rw [if_neg hlt, if_neg hlt]
            rfl

/-- All numbers become greater by the offset, and the variables whose old numbers are in `other`
have the value that is given there, or none. -/
structure Recast where
  offset : Nat
  other : Nat → Option (Option Value)

namespace Recast

def entry (r : Recast) (id : Nat) : Entry → Entry
  | .variable v => .variable ⟨v.ty, (r.other id).getD v.value⟩
  | .function f => .function f

def binding (r : Recast) (b : Binding) : Binding :=
  ⟨b.name, b.id + r.offset, r.entry b.id b.entry⟩

def horizon (r : Recast) (last : Option Nat) : Option Nat :=
  last.map (· + r.offset)

def link (r : Recast) (link : Link) : Link :=
  ⟨link.level, r.horizon link.horizon⟩

def scope (r : Recast) (scope : Scope) : Scope :=
  ⟨scope.level, scope.horizon + r.offset⟩

def level (r : Recast) (level : Level) : Level :=
  ⟨level.bindings.map r.binding, level.parent.map r.link⟩

def store (r : Recast) (s : Store) : Store :=
  ⟨s.levels.map r.level, s.nextId + r.offset⟩

variable (r : Recast) (s : Store)

theorem parent_of_offset {r : Recast} (h : r.offset = 0) (parent : Option Link) :
    parent.map r.link = parent := by
  cases parent with
  | none => rfl
  | some link =>
    obtain ⟨level, last⟩ := link
    cases last <;> simp [Recast.link, horizon, h]

theorem within_binding (last : Option Nat) (b : Binding) :
    Level.within (r.horizon last) (r.binding b) = Level.within last b := by
  cases last with
  | none => rfl
  | some last => simp [horizon, binding, Level.within]

theorem find?_level (level : Level) (name : String) :
    (r.level level).find? name = (level.find? name).map r.binding := by
  unfold Level.find? Recast.level
  rw [List.find?_map]
  rfl

theorem visible?_level (level : Level) (name : String) (last : Option Nat) :
    (r.level level).visible? name (r.horizon last) =
      (level.visible? name last).map r.binding := by
  change ((r.level level).find? name).filter (Level.within (r.horizon last)) =
    ((level.find? name).filter (Level.within last)).map r.binding
  rw [find?_level]
  cases level.find? name with
  | none => rfl
  | some b =>
    simp only [Option.map_some, Option.filter_some, within_binding]
    split <;> rfl

theorem upTo_level (level : Level) (last : Option Nat) :
    (r.level level).upTo (r.horizon last) = (level.upTo last).map r.binding := by
  unfold Level.upTo Recast.level
  rw [List.filter_map]
  congr 2
  exact funext fun b => r.within_binding last b

theorem narrow_horizon (last last' : Option Nat) :
    Store.narrow (r.horizon last) (r.horizon last') = r.horizon (Store.narrow last last') := by
  cases last <;> cases last' <;> simp only [Store.narrow, horizon, Option.map_none, Option.map_some]
  split <;> split <;> simp <;> omega

theorem levels_store (i : Nat) : (r.store s).levels[i]? = (s.levels[i]?).map r.level := by
  simp [store]

@[simp] theorem depth_store : (r.store s).depth = s.depth := by
  simp [store, Store.depth]

/-- The same binding is found on the same level. -/
theorem findFrom_store (name : String) (i : Nat) (last : Option Nat) :
    (r.store s).findFrom name i (r.horizon last) =
      (s.findFrom name i last).map fun found => (found.1, r.binding found.2) :=
  Store.findFrom_map (r.levels_store s) r.visible?_level (fun _ => rfl) r.narrow_horizon name i last

theorem find?_store (name : String) :
    (r.store s).find? name = (s.find? name).map fun found => (found.1, r.binding found.2) := by
  unfold Store.find?
  rw [depth_store]
  split
  · rfl
  · exact r.findFrom_store s name _ none

theorem visibleFrom_store (i : Nat) (last : Option Nat) :
    (r.store s).visibleFrom i (r.horizon last) =
      (s.visibleFrom i last).map fun found => (found.1, r.binding found.2) := by
  induction i using Nat.strongRecOn generalizing last with
  | ind i ih =>
    rw [Store.visibleFrom, Store.visibleFrom, levels_store]
    cases s.levels[i]? with
    | none => rfl
    | some level =>
      simp only [Option.map_some, upTo_level, List.map_append, List.map_map]
      obtain ⟨bindings, parent⟩ := level
      congr 1
      cases parent with
      | none => rfl
      | some link =>
        simp only [Recast.level, Recast.link, Option.map_some, narrow_horizon]
        by_cases hlt : link.level < i
        · rw [if_pos hlt, if_pos hlt]
          exact ih link.level hlt _
        · rw [if_neg hlt, if_neg hlt]
          rfl

/-- Slots do not depend on numbers. -/
theorem resolve_store (name : String) : (r.store s).resolve name = s.resolve name := by
  unfold Store.resolve
  rw [find?_store]
  match s.find? name with
  | none => rfl
  | some (_, ⟨_, _, .variable _⟩) => rfl
  | some (_, ⟨_, _, .function _⟩) => rfl

theorem lookupFunction_store (name : String) : (r.store s).lookupFunction name =
    (s.lookupFunction name).map fun found => (found.1, r.scope found.2) := by
  unfold Store.lookupFunction
  rw [find?_store]
  match s.find? name with
  | none => rfl
  | some (_, ⟨_, _, .variable _⟩) => rfl
  | some (_, ⟨_, _, .function _⟩) => rfl

section Levels

theorem pushLevel_store (parent : Option Link) :
    (r.store s).pushLevel (parent.map r.link) = r.store (s.pushLevel parent) := by
  simp [Store.pushLevel, store, level, Level.empty]

theorem newLevel_store : (r.store s).newLevel = r.store s.newLevel := by
  unfold Store.newLevel
  rw [← pushLevel_store, depth_store]
  congr 1
  split <;> rfl

theorem newFrame_store (scope : Scope) :
    (r.store s).newFrame (r.scope scope) = r.store (s.newFrame scope) :=
  r.pushLevel_store s (some ⟨scope.level, some scope.horizon⟩)

theorem deleteLevel_store : (r.store s).deleteLevel = r.store s.deleteLevel := by
  simp [Store.deleteLevel, store]

theorem locals_store : (r.store s).locals = s.locals := by
  unfold Store.locals
  rw [depth_store, levels_store]
  cases s.levels[s.depth - 1]? with
  | none => rfl
  | some level => simp [Recast.level, Level.names, binding]

variable {r s}

theorem extend_store (h : r.other s.nextId = none) (name : String) (entry : Entry) :
    (r.store s).extend name entry = r.store (s.extend name entry) := by
  have hentry : r.entry s.nextId entry = entry := by
    cases entry <;> simp [Recast.entry, h]
  unfold Store.extend
  rw [depth_store]
  simp only [store, Store.mk.injEq]
  refine ⟨(map_modify fun level _ => ?_).symm, by omega⟩
  simp [Recast.level, binding, hentry]

theorem register_store (hd : 0 < s.depth) (h : r.other s.nextId = none) (name : String)
    (entry : Entry) :
    (r.store s).register name entry = (s.register name entry).map r.store := by
  rw [Store.register_eq (by simpa using hd), Store.register_eq hd, locals_store, extend_store h]
  split <;> rfl

end Levels

end Recast

end Offside
