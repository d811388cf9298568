import Offside.Store

/-!
What a store shows, as a list: all the bindings that a search for a name meets, in the order in
which it meets them. A search finds the first one with the name. A store that was built by its own
operations is `Valid`, and then the list behind a binding is what its number shows on its level:
one horizon stands for all the names that were visible when the binding was made.
-/

namespace Offside

namespace Level

def names (level : Level) : List String :=
  level.bindings.map Binding.name

def within (horizon : Option Nat) (b : Binding) : Bool :=
  horizon.all fun last => b.id ≤ last

/-- The bindings up to a horizon, the newest first. -/
def upTo (level : Level) (horizon : Option Nat) : List Binding :=
  level.bindings.filter (within horizon)

@[simp] theorem upTo_none (level : Level) : level.upTo none = level.bindings :=
  List.filter_eq_self.mpr fun _ _ => rfl

theorem find?_eq_none_of_not_mem {level : Level} {name : String} (h : name ∉ level.names) :
    level.find? name = none := by
  rw [find?, List.find?_eq_none]
  intro binding hb he
  exact h (List.mem_map.mpr ⟨binding, hb, by simpa using he⟩)

theorem find?_isSome_iff {level : Level} {name : String} :
    (level.find? name).isSome ↔ name ∈ level.names := by
  simp [find?, names, List.find?_isSome]

/-- Names are unique, so it does not matter whether the horizon or the name is looked at first. -/
theorem visible?_eq (level : Level) (name : String) (horizon : Option Nat)
    (h : level.names.Nodup) :
    level.visible? name horizon = (level.upTo horizon).find? fun b => b.name = name := by
  change (level.bindings.find? fun b => b.name = name).filter (within horizon) =
    (level.bindings.filter (within horizon)).find? fun b => b.name = name
  unfold names at h
  generalize level.bindings = bindings at h ⊢
  induction bindings with
  | nil => rfl
  | cons b bs ih =>
    rw [List.map_cons, List.nodup_cons] at h
    by_cases hn : b.name = name
    · by_cases hh : within horizon b = true
      · simp [hn, hh]
      · have hrest : (bs.filter (within horizon)).find? (fun b => b.name = name) = none := by
          rw [List.find?_eq_none]
          intro c hc he
          refine h.1 (List.mem_map.mpr ⟨c, (List.mem_filter.mp hc).1, ?_⟩)
          rw [hn]
          simpa using he
        rw [List.filter_cons_of_neg hh, hrest]
        simp [hn, hh]
    · by_cases hh : within horizon b = true
      · simpa [hn, hh] using ih h.2
      · simpa [hn, hh] using ih h.2

end Level

namespace Store

/-- The bindings that are visible from level `i`, with their levels, the nearest first. -/
def visibleFrom (s : Store) (i : Nat) (horizon : Option Nat) : List (Nat × Binding) :=
  match s.levels[i]? with
  | none => []
  | some level =>
    (level.upTo horizon).map (i, ·) ++
      match level.parent with
      | none => []
      | some link =>
        if link.level < i then s.visibleFrom link.level (narrow horizon link.horizon) else []
termination_by i

def visible (s : Store) : List (Nat × Binding) :=
  if s.depth = 0 then [] else s.visibleFrom (s.depth - 1) none

/-- The names that are bound on the innermost level. -/
def locals (s : Store) : List String :=
  match s.levels[s.depth - 1]? with
  | none => []
  | some level => level.names

/-- What holds of every store that is built by the operations. Numbers grow inwards, and links lead
outwards. -/
structure Valid (s : Store) : Prop where
  unique : ∀ (i : Nat) level, s.levels[i]? = some level → level.names.Nodup
  newest : ∀ (i : Nat) level, s.levels[i]? = some level →
    level.bindings.Pairwise fun a b => b.id < a.id
  counted : ∀ (i : Nat) level, s.levels[i]? = some level → ∀ b ∈ level.bindings, b.id < s.nextId
  outward : ∀ (i : Nat) level link, s.levels[i]? = some level → level.parent = some link →
    link.level < i
  layered : ∀ (i j : Nat) low high, i < j → s.levels[i]? = some low → s.levels[j]? = some high →
    ∀ a ∈ low.bindings, ∀ b ∈ high.bindings, a.id < b.id

theorem visibleFrom_none {s : Store} {i : Nat} (h : s.levels[i]? = none)
    (horizon : Option Nat) : s.visibleFrom i horizon = [] := by
  rw [visibleFrom, h]

theorem visibleFrom_some {s : Store} (hs : s.Valid) {i : Nat} {level : Level}
    (h : s.levels[i]? = some level) (horizon : Option Nat) :
    s.visibleFrom i horizon = (level.upTo horizon).map (i, ·) ++
      match level.parent with
      | none => []
      | some link => s.visibleFrom link.level (narrow horizon link.horizon) := by
  rw [visibleFrom, h]
  cases hp : level.parent with
  | none => simp [hp]
  | some link => simp [hp, hs.outward i level link h hp]

theorem findFrom_eq {s : Store} (hs : s.Valid) (name : String) (i : Nat)
    (horizon : Option Nat) :
    s.findFrom name i horizon =
      (s.visibleFrom i horizon).find? fun entry => entry.2.name = name := by
  induction i using Nat.strongRecOn generalizing horizon with
  | ind i ih =>
    rw [findFrom]
    cases hl : s.levels[i]? with
    | none => simp [visibleFrom_none hl]
    | some level =>
      have hfind : ((level.upTo horizon).map (i, ·)).find? (fun entry => entry.2.name = name) =
          (level.visible? name horizon).map (i, ·) := by
        rw [level.visible?_eq name horizon (hs.unique i level hl), List.find?_map]
        rfl
      rw [visibleFrom_some hs hl, List.find?_append, hfind]
      cases hv : level.visible? name horizon with
      | some b => simp [hv]
      | none =>
        cases hp : level.parent with
        | none => simp [hv, hp]
        | some link =>
          have hlt := hs.outward i level link hl hp
          simpa [hv, hp, hlt] using ih link.level hlt (narrow horizon link.horizon)

/-- A search finds the nearest visible binding of a name. -/
theorem find?_eq {s : Store} (hs : s.Valid) (name : String) :
    s.find? name = s.visible.find? fun entry => entry.2.name = name := by
  unfold find? visible
  split
  · rfl
  · exact findFrom_eq hs name _ none

theorem within_narrow (a b : Option Nat) (binding : Binding) :
    Level.within (narrow a b) binding = (Level.within a binding && Level.within b binding) := by
  cases a with
  | none => simp [narrow, Level.within]
  | some x =>
    cases b with
    | none => simp [narrow, Level.within]
    | some y =>
      rw [Bool.eq_iff_iff]
      simp only [narrow, Level.within, Option.all_some, Bool.and_eq_true, decide_eq_true_eq]
      split <;> omega

theorem narrow_assoc (a b c : Option Nat) : narrow (narrow a b) c = narrow a (narrow b c) := by
  cases a <;> cases b <;> cases c <;> simp only [narrow, Option.some.injEq]
  repeat' split
  all_goals omega

theorem mem_visibleFrom {s : Store} (hs : s.Valid) {i j : Nat} {horizon : Option Nat}
    {b : Binding} (h : (j, b) ∈ s.visibleFrom i horizon) :
    j ≤ i ∧ ∃ level, s.levels[j]? = some level ∧ b ∈ level.bindings := by
  induction i using Nat.strongRecOn generalizing horizon with
  | ind i ih =>
    cases hl : s.levels[i]? with
    | none => simp [visibleFrom_none hl] at h
    | some level =>
      rw [visibleFrom_some hs hl, List.mem_append] at h
      obtain h | h := h
      · obtain ⟨c, hc, he⟩ := List.mem_map.mp h
        cases he
        exact ⟨Nat.le_refl _, level, hl, (List.mem_filter.mp hc).1⟩
      · cases hp : level.parent with
        | none => simp [hp] at h
        | some link =>
          have hlt := hs.outward i level link hl hp
          obtain ⟨hle, hm⟩ := ih link.level hlt (by simpa [hp] using h)
          exact ⟨by omega, hm⟩

/-- A horizon behind which nothing was bound hides nothing. -/
theorem visibleFrom_narrow {s : Store} (hs : s.Valid) {last : Nat} (i : Nat)
    (horizon : Option Nat)
    (h : ∀ j ≤ i, ∀ level, s.levels[j]? = some level → ∀ b ∈ level.bindings, b.id ≤ last) :
    s.visibleFrom i (narrow (some last) horizon) = s.visibleFrom i horizon := by
  induction i using Nat.strongRecOn generalizing horizon with
  | ind i ih =>
    cases hl : s.levels[i]? with
    | none => simp [visibleFrom_none hl]
    | some level =>
      have hu : level.upTo (narrow (some last) horizon) = level.upTo horizon := by
        refine List.filter_congr fun b hb => ?_
        have hle := h i (Nat.le_refl _) level hl b hb
        rw [within_narrow]
        simp [Level.within, hle]
      rw [visibleFrom_some hs hl, visibleFrom_some hs hl, hu]
      cases hp : level.parent with
      | none => rfl
      | some link =>
        have hlt := hs.outward i level link hl hp
        have hi := ih link.level hlt (narrow horizon link.horizon)
          (fun j hj => h j (by omega))
        simp only [narrow_assoc, hi]

theorem upTo_suffix {level : Level} {horizon : Option Nat} {before after : List Binding}
    {b : Binding} (hn : level.bindings.Pairwise fun a b => b.id < a.id)
    (h : level.upTo horizon = before ++ b :: after) : level.upTo (some b.id) = b :: after := by
  have hb : b ∈ level.upTo horizon := by simp [h]
  have hw := (List.mem_filter.mp hb).2
  have hf : level.upTo (some b.id) =
      (level.upTo horizon).filter (Level.within (some b.id)) := by
    unfold Level.upTo
    rw [List.filter_filter]
    refine List.filter_congr fun c _ => ?_
    by_cases hc : c.id ≤ b.id
    · have hcw : Level.within horizon c = true := by
        cases horizon with
        | none => rfl
        | some last =>
          simp only [Level.within, Option.all_some, decide_eq_true_eq] at hw ⊢
          omega
      simp [hcw]
    · simp [Level.within, hc]
  have hp : (before ++ b :: after).Pairwise fun a b => b.id < a.id := h ▸ hn.filter _
  rw [List.pairwise_append, List.pairwise_cons] at hp
  have hbefore : before.filter (Level.within (some b.id)) = [] := by
    rw [List.filter_eq_nil_iff]
    intro c hc
    have hlt := hp.2.2 c hc b (by simp)
    simp [Level.within]
    omega
  have hafter : after.filter (Level.within (some b.id)) = after := by
    rw [List.filter_eq_self]
    intro c hc
    have hlt := hp.2.1.1 c hc
    simp [Level.within]
    omega
  rw [hf, h, List.filter_append, hbefore, List.nil_append, List.filter_cons_of_pos
    (by simp [Level.within]), hafter]

/-- Further out everything is older than a binding, so neither its number nor a horizon that it
is within hides anything there. -/
theorem visibleFrom_parent {s : Store} (hs : s.Valid) {i : Nat} {level : Level} {link : Link}
    {b : Binding} {horizon : Option Nat} (hl : s.levels[i]? = some level)
    (hp : level.parent = some link) (hb : b ∈ level.upTo horizon) :
    s.visibleFrom link.level (narrow horizon link.horizon) =
      s.visibleFrom link.level (narrow (some b.id) link.horizon) := by
  obtain ⟨hm, hw⟩ := List.mem_filter.mp hb
  have hlt := hs.outward i level link hl hp
  have older : ∀ j ≤ link.level, ∀ low, s.levels[j]? = some low → ∀ a ∈ low.bindings,
      a.id ≤ b.id := by
    intro j hj low hlow a ha
    exact Nat.le_of_lt (hs.layered j i low level (by omega) hlow hl a ha b hm)
  rw [visibleFrom_narrow hs link.level link.horizon older]
  cases horizon with
  | none => rfl
  | some last =>
    have hle : b.id ≤ last := by simpa [Level.within] using hw
    exact visibleFrom_narrow hs link.level link.horizon
      fun j hj low hlow a ha => Nat.le_trans (older j hj low hlow a ha) hle

/-- What is visible from a binding is what stands from it on in any list that it is visible in.
So the number of a function stands for all the names that were visible when it was bound. -/
theorem visibleFrom_suffix {s : Store} (hs : s.Valid) {i j : Nat} {horizon : Option Nat}
    {before after : List (Nat × Binding)} {b : Binding}
    (h : s.visibleFrom i horizon = before ++ (j, b) :: after) :
    s.visibleFrom j (some b.id) = (j, b) :: after := by
  induction i using Nat.strongRecOn generalizing horizon before with
  | ind i ih =>
    cases hl : s.levels[i]? with
    | none => simp [visibleFrom_none hl] at h
    | some level =>
      rw [visibleFrom_some hs hl, List.append_eq_append_iff] at h
      obtain ⟨mid, rfl, ht⟩ | ⟨mid, hm, ht⟩ := h
      · cases hp : level.parent with
        | none => simp [hp] at ht
        | some link =>
          have hlt := hs.outward i level link hl hp
          simp only [hp] at ht
          exact ih link.level hlt ht
      · cases mid with
        | nil =>
          cases hp : level.parent with
          | none => simp [hp] at ht
          | some link =>
            have hlt := hs.outward i level link hl hp
            simp only [hp, List.nil_append] at ht
            have hnil := ht.symm.trans (List.nil_append _).symm
            exact ih link.level hlt hnil
        | cons entry mid =>
          simp only [List.cons_append, List.cons.injEq] at ht
          obtain ⟨rfl, rfl⟩ := ht
          obtain ⟨front, back, hu, rfl, hback⟩ := List.map_eq_append_iff.mp hm
          obtain ⟨c, rest, rfl, hc, rfl⟩ := List.map_eq_cons_iff.mp hback
          obtain ⟨rfl, rfl⟩ := Prod.mk.inj hc
          have hb : c ∈ level.upTo horizon := by simp [hu]
          rw [visibleFrom_some hs hl, upTo_suffix (hs.newest _ level hl) hu]
          cases hp : level.parent with
          | none => simp
          | some link => simp [visibleFrom_parent hs hl hp hb]

end Store

end Offside
