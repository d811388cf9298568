import Offside.Proofs.Scope.Closures

/-!
The search for a name as it goes from level to level along the links, without looking whether a
level is there or whether a link leads outwards. On a store that was built by the operations it goes
strictly outwards, so it ends on one of the open levels.
-/

namespace Offside.Store

/-- The numbers of all bindings, level by level. -/
def numbers (s : Store) : List Nat :=
  s.levels.toList.flatMap fun level => level.bindings.map Binding.id

theorem mem_numbers {s : Store} {id : Nat} : id ∈ s.numbers ↔
    ∃ (i : Nat) (level : Level) (b : Binding),
      s.levels[i]? = some level ∧ b ∈ level.bindings ∧ b.id = id := by
  simp only [numbers, List.mem_flatMap, List.mem_map, Array.mem_toList_iff,
    Array.mem_iff_getElem?]
  constructor
  · rintro ⟨level, ⟨i, hl⟩, b, hb, hid⟩
    exact ⟨i, level, b, hl, hb, hid⟩
  · rintro ⟨i, level, b, hl, hb, hid⟩
    exact ⟨level, ⟨i, hl⟩, b, hb, hid⟩

theorem Valid.numbers_nodup {s : Store} (hs : s.Valid) : s.numbers.Nodup := by
  refine List.nodup_flatMap.2 ⟨fun level hm => ?_, ?_⟩
  · obtain ⟨i, hl⟩ := Array.mem_iff_getElem?.1 (Array.mem_toList_iff.1 hm)
    exact List.pairwise_map.2 ((hs.newest i level hl).imp fun h => Nat.ne_of_gt h)
  · refine List.pairwise_iff_getElem.2 fun i j hi hj hlt id hlow hhigh => ?_
    obtain ⟨a, ha, hid⟩ := List.mem_map.1 hlow
    obtain ⟨b, hb, hid'⟩ := List.mem_map.1 hhigh
    have hless := hs.layered i j _ _ hlt (by simp [Array.getElem?_eq_getElem hi])
      (by simp [Array.getElem?_eq_getElem hj]) a ha b hb
    omega

/-- The search for a name from level `i` visits these levels, and this is what it comes to. It is
stuck on a level that is not there, and nothing keeps it from following a link in a circle. -/
inductive Walk (s : Store) (name : String) :
    Nat → Option Nat → List Nat → Option (Nat × Binding) → Prop
  | found (hl : s.levels[i]? = some level) (hb : level.visible? name horizon = some b) :
      Walk s name i horizon [i] (some (i, b))
  | unbound (hl : s.levels[i]? = some level) (hb : level.visible? name horizon = none)
      (hp : level.parent = none) : Walk s name i horizon [i] none
  | follow (hl : s.levels[i]? = some level) (hb : level.visible? name horizon = none)
      (hp : level.parent = some link)
      (h : Walk s name link.level (narrow horizon link.horizon) visited result) :
      Walk s name i horizon (i :: visited) result

variable {s : Store}

namespace Walk

variable {name : String} {i : Nat} {horizon : Option Nat} {visited : List Nat}
  {result : Option (Nat × Binding)}

/-- There is only one way to go. -/
theorem unique (h : s.Walk name i horizon visited result) {visited' : List Nat}
    {result' : Option (Nat × Binding)} (h' : s.Walk name i horizon visited' result') :
    visited' = visited ∧ result' = result := by
  induction h generalizing visited' result' with
  | found hl hb =>
    cases h' with
    | found hl' hb' =>
      cases hl.symm.trans hl'
      cases hb.symm.trans hb'
      exact ⟨rfl, rfl⟩
    | unbound hl' hb' =>
      cases hl.symm.trans hl'
      cases hb.symm.trans hb'
    | follow hl' hb' =>
      cases hl.symm.trans hl'
      cases hb.symm.trans hb'
  | unbound hl hb hp =>
    cases h' with
    | found hl' hb' =>
      cases hl.symm.trans hl'
      cases hb.symm.trans hb'
    | unbound => exact ⟨rfl, rfl⟩
    | follow hl' hb' hp' =>
      cases hl.symm.trans hl'
      cases hp.symm.trans hp'
  | follow hl hb hp h ih =>
    cases h' with
    | found hl' hb' =>
      cases hl.symm.trans hl'
      cases hb.symm.trans hb'
    | unbound hl' hb' hp' =>
      cases hl.symm.trans hl'
      cases hp.symm.trans hp'
    | follow hl' hb' hp' h' =>
      cases hl.symm.trans hl'
      cases hp.symm.trans hp'
      obtain ⟨rfl, rfl⟩ := ih h'
      exact ⟨rfl, rfl⟩

/-- Links lead outwards, so every level is visited once, and the search ends with what it finds
among the levels outside. -/
theorem of_valid (hs : s.Valid) (name : String) (hi : i < s.depth) (horizon : Option Nat) :
    ∃ visited, s.Walk name i horizon visited (s.findFrom name i horizon) ∧
      visited.Pairwise (· > ·) ∧ ∀ j ∈ visited, j ≤ i := by
  induction i using Nat.strongRecOn generalizing horizon with
  | ind i ih =>
    have hl : s.levels[i]? = some s.levels[i] := Array.getElem?_eq_getElem hi
    generalize s.levels[i] = level at hl
    rw [findFrom, hl]
    cases hb : level.visible? name horizon with
    | some b => exact ⟨[i], by simpa [hb] using .found hl hb, by simp, by simp⟩
    | none =>
      cases hp : level.parent with
      | none => exact ⟨[i], by simpa [hb, hp] using .unbound hl hb hp, by simp, by simp⟩
      | some link =>
        have hlt := hs.outward i level link hl hp
        obtain ⟨visited, hwalk, hsorted, hle⟩ :=
          ih link.level hlt (by omega) (narrow horizon link.horizon)
        refine ⟨i :: visited, by simpa [hb, hp, hlt] using .follow hl hb hp hwalk, ?_, ?_⟩
        · refine List.pairwise_cons.2 ⟨fun j hj => ?_, hsorted⟩
          have := hle j hj
          omega
        · refine List.forall_mem_cons.2 ⟨Nat.le_refl i, fun j hj => ?_⟩
          have := hle j hj
          omega

end Walk

/-- The search for a name from the innermost level goes one way, which ends with what is found. -/
theorem Valid.exists_walk (hs : s.Valid) (hd : 0 < s.depth) (name : String) :
    ∃ visited : List Nat, visited.Pairwise (· > ·) ∧ (∀ j ∈ visited, j < s.depth) ∧
      ∀ visited' result, s.Walk name (s.depth - 1) none visited' result ↔
        visited' = visited ∧ result = s.find? name := by
  have hlt : s.depth - 1 < s.depth := by omega
  have hfind : s.find? name = s.findFrom name (s.depth - 1) none := if_neg (by omega)
  obtain ⟨visited, hwalk, hsorted, hle⟩ := Walk.of_valid hs name hlt none
  rw [← hfind] at hwalk
  refine ⟨visited, hsorted, fun j hj => Nat.lt_of_le_of_lt (hle j hj) hlt, fun _ _ => ?_⟩
  constructor
  · exact hwalk.unique
  · rintro ⟨rfl, rfl⟩
    exact hwalk

end Offside.Store
