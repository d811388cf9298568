import Mathlib.Data.List.Nodup
import Offside.Proofs.Scope.Visible
import Offside.Proofs.Scope.Writes

/-!
What each operation of a store does to what is visible in it, and that it keeps the store valid.
-/

namespace Offside

theorem Level.find?_of_mem {level : Level} {b : Binding} (hu : level.names.Nodup)
    (hb : b ∈ level.bindings) : level.find? b.name = some b := by
  obtain ⟨c, hc⟩ := Option.isSome_iff_exists.mp
    (Level.find?_isSome_iff.mpr (List.mem_map.mpr ⟨b, hb, rfl⟩))
  have hn : c.name = b.name := by simpa using List.find?_some hc
  rw [hc, List.inj_on_of_nodup_map hu (List.mem_of_find?_eq_some hc) hb hn]

namespace Store

/-- Bind a name that is not bound on the innermost level yet. -/
def extend (s : Store) (name : String) (entry : Entry) : Store :=
  ⟨s.levels.modify (s.depth - 1) fun level =>
    ⟨⟨name, s.nextId, entry⟩ :: level.bindings, level.parent⟩, s.nextId + 1⟩

theorem exists_innermost {s : Store} (h : 0 < s.depth) :
    ∃ level, s.levels[s.depth - 1]? = some level := by
  have hlt : s.depth - 1 < s.levels.size := by
    unfold depth at *
    omega
  exact ⟨s.levels[s.depth - 1], Array.getElem?_eq_getElem hlt⟩

theorem register_eq {s : Store} (h : 0 < s.depth) (name : String) (entry : Entry) :
    s.register name entry =
      if name ∈ s.locals then .error (.alreadyDefined name) else .ok (s.extend name entry) := by
  obtain ⟨level, hl⟩ := exists_innermost h
  have hd : s.depth ≠ 0 := by omega
  have hsize : s.levels[s.levels.size - 1]? = some level := hl
  simp only [register_eq_match, hd, if_false, hsize, Option.bind_some, locals, hl]
  by_cases hm : name ∈ level.names
  · obtain ⟨b, hb⟩ := Option.isSome_iff_exists.mp (Level.find?_isSome_iff.mpr hm)
    simp [hb, hm]
  · rw [Level.find?_eq_none_of_not_mem hm, if_neg hm]
    rfl

theorem register_ok {s s' : Store} (h : 0 < s.depth) {name : String} {entry : Entry}
    (hr : s.register name entry = .ok s') : name ∉ s.locals ∧ s' = s.extend name entry := by
  rw [register_eq h] at hr
  split at hr
  · cases hr
  · case isFalse hm => exact ⟨hm, (Except.ok.inj hr).symm⟩

/-- When no level is open, one is opened first. -/
theorem register_of_empty {s : Store} (hd : s.depth = 0) (name : String) (entry : Entry) :
    s.register name entry = s.newLevel.register name entry := by
  obtain ⟨levels, nextId⟩ := s
  obtain rfl : levels = #[] := Array.eq_empty_of_size_eq_zero hd
  rfl

section Levels

variable (s : Store)

@[simp] theorem depth_pushLevel (parent : Option Link) :
    (s.pushLevel parent).depth = s.depth + 1 := by
  simp [pushLevel, depth]

@[simp] theorem depth_newLevel : s.newLevel.depth = s.depth + 1 := depth_pushLevel s _

@[simp] theorem depth_newFrame (scope : Scope) : (s.newFrame scope).depth = s.depth + 1 :=
  depth_pushLevel s _

@[simp] theorem depth_deleteLevel : s.deleteLevel.depth = s.depth - 1 := by
  simp [deleteLevel, depth]

@[simp] theorem depth_extend (name : String) (entry : Entry) :
    (s.extend name entry).depth = s.depth := by
  simp [extend, depth]

theorem levels_pushLevel_of_lt (parent : Option Link) {i : Nat} (h : i < s.depth) :
    (s.pushLevel parent).levels[i]? = s.levels[i]? := by
  simp only [pushLevel, depth] at h ⊢
  rw [Array.getElem?_push, if_neg (by omega)]

theorem levels_pushLevel_self (parent : Option Link) :
    (s.pushLevel parent).levels[s.depth]? = some (.empty parent) := by
  simp [pushLevel, depth]

theorem levels_deleteLevel_of_lt {i : Nat} (h : i < s.depth - 1) :
    s.deleteLevel.levels[i]? = s.levels[i]? := by
  simp only [deleteLevel, depth] at h ⊢
  rw [Array.getElem?_pop, if_pos h]

theorem levels_extend_of_lt (name : String) (entry : Entry) {i : Nat} (h : i < s.depth - 1) :
    (s.extend name entry).levels[i]? = s.levels[i]? := by
  simp only [extend]
  rw [Array.getElem?_modify, if_neg (by omega)]

theorem levels_extend_self (name : String) (entry : Entry) {level : Level}
    (h : s.levels[s.depth - 1]? = some level) :
    (s.extend name entry).levels[s.depth - 1]? =
      some ⟨⟨name, s.nextId, entry⟩ :: level.bindings, level.parent⟩ := by
  simp only [extend]
  rw [Array.getElem?_modify, if_pos rfl, h]
  rfl

end Levels

theorem lt_depth {s : Store} {i : Nat} {level : Level} (h : s.levels[i]? = some level) :
    i < s.depth :=
  (Array.getElem?_eq_some_iff.mp h).1

section Cases

variable {s : Store} {i : Nat} {level : Level}

/-- A level is one of those that were there, or the new one. -/
theorem levels_pushLevel_cases {parent : Option Link}
    (h : (s.pushLevel parent).levels[i]? = some level) :
    i < s.depth ∧ s.levels[i]? = some level ∨ i = s.depth ∧ level = .empty parent := by
  by_cases hi : i < s.depth
  · rw [levels_pushLevel_of_lt s parent hi] at h
    exact .inl ⟨hi, h⟩
  · have hlt := lt_depth h
    obtain rfl : i = s.depth := by simp at hlt; omega
    rw [levels_pushLevel_self] at h
    exact .inr ⟨rfl, (Option.some.inj h).symm⟩

theorem levels_deleteLevel_cases (h : s.deleteLevel.levels[i]? = some level) :
    i < s.depth - 1 ∧ s.levels[i]? = some level := by
  have hlt := lt_depth h
  rw [depth_deleteLevel] at hlt
  rw [levels_deleteLevel_of_lt s hlt] at h
  exact ⟨hlt, h⟩

/-- A level is one of the outer ones, or the innermost one with the new binding. -/
theorem levels_extend_cases {name : String} {entry : Entry} {inner : Level}
    (hinner : s.levels[s.depth - 1]? = some inner)
    (h : (s.extend name entry).levels[i]? = some level) :
    i < s.depth - 1 ∧ s.levels[i]? = some level ∨
      i = s.depth - 1 ∧ level = ⟨⟨name, s.nextId, entry⟩ :: inner.bindings, inner.parent⟩ := by
  by_cases hi : i < s.depth - 1
  · rw [levels_extend_of_lt s name entry hi] at h
    exact .inl ⟨hi, h⟩
  · have hlt := lt_depth h
    obtain rfl : i = s.depth - 1 := by simp at hlt; omega
    rw [levels_extend_self s name entry hinner] at h
    exact .inr ⟨rfl, (Option.some.inj h).symm⟩

end Cases

/-- What is visible from a level depends on it and the levels further out only. -/
theorem visibleFrom_congr {s t : Store} {i : Nat} (h : ∀ j ≤ i, t.levels[j]? = s.levels[j]?)
    (horizon : Option Nat) : t.visibleFrom i horizon = s.visibleFrom i horizon := by
  induction i using Nat.strongRecOn generalizing horizon with
  | ind i ih =>
    rw [visibleFrom, visibleFrom, h i (Nat.le_refl i)]
    cases s.levels[i]? with
    | none => rfl
    | some level =>
      cases hp : level.parent with
      | none => simp [hp]
      | some link =>
        by_cases hlt : link.level < i
        · simp [hp, hlt, ih link.level hlt (fun j hj => h j (by omega))]
        · simp [hp, hlt]

theorem visible_eq {s : Store} (h : 0 < s.depth) : s.visible = s.visibleFrom (s.depth - 1) none := by
  unfold visible
  rw [if_neg (by omega)]

theorem mem_visible {s : Store} (hs : s.Valid) {entry : Nat × Binding} (h : entry ∈ s.visible) :
    ∃ level, s.levels[entry.1]? = some level ∧ entry.2 ∈ level.bindings := by
  unfold visible at h
  split at h
  · cases h
  · exact (mem_visibleFrom hs h).2

theorem visible_pushLevel (s : Store) (link : Link) (h : link.level < s.depth) :
    (s.pushLevel (some link)).visible = s.visibleFrom link.level link.horizon := by
  have hd : (s.pushLevel (some link)).depth - 1 = s.depth := by simp
  rw [visible_eq (by simp), hd, visibleFrom, levels_pushLevel_self]
  simp only [Level.empty, Level.upTo, List.filter_nil, List.map_nil, List.nil_append, h, if_true]
  rw [visibleFrom_congr (fun j hj => levels_pushLevel_of_lt s _ (by omega))]
  cases link.horizon <;> rfl

theorem visible_newLevel {s : Store} (h : 0 < s.depth) : s.newLevel.visible = s.visible := by
  unfold newLevel
  rw [if_neg (by omega), visible_pushLevel s _ (by simp; omega), visible_eq h]

theorem visible_newLevel_of_none {s : Store} (h : s.depth = 0) : s.newLevel.visible = [] := by
  have hd : s.newLevel.depth - 1 = s.depth := by simp
  rw [visible_eq (by simp), hd, visibleFrom]
  unfold newLevel
  rw [levels_pushLevel_self]
  simp [h, Level.empty]

theorem visible_newFrame {s : Store} {scope : Scope} (h : scope.level < s.depth) :
    (s.newFrame scope).visible = s.visibleFrom scope.level (some scope.horizon) :=
  visible_pushLevel s _ h

theorem visible_extend {s : Store} (h : 0 < s.depth) (hs : s.Valid) (name : String)
    (entry : Entry) :
    (s.extend name entry).visible = (s.depth - 1, ⟨name, s.nextId, entry⟩) :: s.visible := by
  obtain ⟨level, hl⟩ := exists_innermost h
  rw [visible_eq (by simpa using h), visible_eq h, depth_extend, visibleFrom,
    levels_extend_self s name entry hl, visibleFrom_some hs hl]
  simp only [Level.upTo_none, List.map_cons, List.cons_append]
  cases hp : level.parent with
  | none => simp
  | some link =>
    have hlt := hs.outward _ level link hl hp
    simp only [hlt, if_true]
    rw [visibleFrom_congr (fun j hj => levels_extend_of_lt s name entry (by omega))]

/-- A new binding is not visible to those before it. -/
theorem visibleFrom_extend_of_mem {s : Store} (h : 0 < s.depth) (hs : s.Valid) {name : String}
    {entry : Entry}
    (hn : (s.extend name entry).Valid) {level : Level} {b : Binding}
    (hl : s.levels[s.depth - 1]? = some level) (hb : b ∈ level.bindings) :
    (s.extend name entry).visibleFrom (s.depth - 1) (some b.id) =
      s.visibleFrom (s.depth - 1) (some b.id) := by
  have hm : (s.depth - 1, b) ∈ s.visible := by
    rw [visible_eq h, visibleFrom_some hs hl, Level.upTo_none]
    exact List.mem_append_left _ (List.mem_map_of_mem hb)
  obtain ⟨before, after, hv⟩ := List.append_of_mem hm
  have he := visible_extend h hs name entry
  rw [hv, ← List.cons_append, visible_eq (by simpa using h)] at he
  rw [visible_eq h] at hv
  rw [visibleFrom_suffix hn he, visibleFrom_suffix hs hv]

theorem locals_newLevel (s : Store) : s.newLevel.locals = [] := by
  have hd : s.newLevel.depth - 1 = s.depth := by simp
  unfold locals
  rw [hd]
  unfold newLevel
  rw [levels_pushLevel_self]
  rfl

theorem locals_newFrame (s : Store) (scope : Scope) : (s.newFrame scope).locals = [] := by
  have hd : (s.newFrame scope).depth - 1 = s.depth := by simp
  unfold locals
  rw [hd]
  unfold newFrame
  rw [levels_pushLevel_self]
  rfl

theorem locals_extend {s : Store} (h : 0 < s.depth) (name : String) (entry : Entry) :
    (s.extend name entry).locals = name :: s.locals := by
  obtain ⟨level, hl⟩ := exists_innermost h
  unfold locals
  rw [depth_extend, levels_extend_self s name entry hl, hl]
  rfl

/-- No two bindings have the same number. -/
theorem Valid.binding_ext {s : Store} (hs : s.Valid) {i j : Nat} {low high : Level}
    {a b : Binding} (hl : s.levels[i]? = some low) (hh : s.levels[j]? = some high)
    (ha : a ∈ low.bindings) (hb : b ∈ high.bindings) (h : a.id = b.id) : i = j ∧ a = b := by
  obtain hij | rfl | hij := Nat.lt_trichotomy i j
  · have := hs.layered i j low high hij hl hh a ha b hb
    omega
  · cases hl.symm.trans hh
    refine ⟨rfl, ?_⟩
    have hp : (low.bindings.map Binding.id).Nodup :=
      List.pairwise_map.mpr ((hs.newest i low hl).imp fun hlt => Nat.ne_of_gt hlt)
    exact List.inj_on_of_nodup_map hp ha hb h
  · have := hs.layered j i high low hij hh hl b hb a ha
    omega

namespace Valid

theorem new : Store.new.Valid := by
  have h : ∀ (i : Nat) level, Store.new.levels[i]? = some level → level = .empty none := by
    intro i level hl
    obtain ⟨hi, he⟩ := Array.getElem?_eq_some_iff.mp hl
    have hzero : i = 0 := by simp [Store.new] at hi; exact hi
    subst hzero
    exact he.symm
  constructor
  · intro i level hl; rw [h i level hl]; exact List.nodup_nil
  · intro i level hl; rw [h i level hl]; exact List.Pairwise.nil
  · intro i level hl b hb; rw [h i level hl] at hb; cases hb
  · intro i level link hl hp; rw [h i level hl] at hp; cases hp
  · intro i j low high _ hl _ a ha; rw [h i low hl] at ha; cases ha

variable {s : Store}

theorem pushLevel (hs : s.Valid) (parent : Option Link)
    (h : ∀ link, parent = some link → link.level < s.depth) : (s.pushLevel parent).Valid := by
  constructor
  · intro i level hl
    obtain ⟨-, hl⟩ | ⟨-, rfl⟩ := levels_pushLevel_cases hl
    · exact hs.unique i level hl
    · exact List.nodup_nil
  · intro i level hl
    obtain ⟨-, hl⟩ | ⟨-, rfl⟩ := levels_pushLevel_cases hl
    · exact hs.newest i level hl
    · exact List.Pairwise.nil
  · intro i level hl b hb
    obtain ⟨-, hl⟩ | ⟨-, rfl⟩ := levels_pushLevel_cases hl
    · exact hs.counted i level hl b hb
    · cases hb
  · intro i level link hl hp
    obtain ⟨-, hl⟩ | ⟨rfl, rfl⟩ := levels_pushLevel_cases hl
    · exact hs.outward i level link hl hp
    · exact h link hp
  · intro i j low high hij hl hh a ha b hb
    obtain ⟨-, hl⟩ | ⟨-, rfl⟩ := levels_pushLevel_cases hl
    · obtain ⟨-, hh⟩ | ⟨-, rfl⟩ := levels_pushLevel_cases hh
      · exact hs.layered i j low high hij hl hh a ha b hb
      · cases hb
    · cases ha

theorem newLevel (hs : s.Valid) : s.newLevel.Valid := by
  refine hs.pushLevel _ fun link hl => ?_
  split at hl
  · cases hl
  · case isFalse h =>
    cases hl
    simp only
    omega

theorem newFrame (hs : s.Valid) {scope : Scope} (h : scope.level < s.depth) :
    (s.newFrame scope).Valid := by
  refine hs.pushLevel _ fun link hl => ?_
  cases hl
  exact h

theorem deleteLevel (hs : s.Valid) : s.deleteLevel.Valid := by
  constructor
  · intro i level hl
    exact hs.unique i level (levels_deleteLevel_cases hl).2
  · intro i level hl
    exact hs.newest i level (levels_deleteLevel_cases hl).2
  · intro i level hl
    exact hs.counted i level (levels_deleteLevel_cases hl).2
  · intro i level link hl
    exact hs.outward i level link (levels_deleteLevel_cases hl).2
  · intro i j low high hij hl hh
    exact hs.layered i j low high hij (levels_deleteLevel_cases hl).2 (levels_deleteLevel_cases hh).2

theorem extend (hs : s.Valid) (h : 0 < s.depth) {name : String} (hn : name ∉ s.locals)
    (entry : Entry) : (s.extend name entry).Valid := by
  obtain ⟨inner, hinner⟩ := exists_innermost h
  have hni : name ∉ inner.names := by simpa [locals, hinner] using hn
  constructor
  · intro i level hl
    obtain ⟨_, hl⟩ | ⟨_, rfl⟩ := levels_extend_cases hinner hl
    · exact hs.unique i level hl
    · exact List.nodup_cons.mpr ⟨hni, hs.unique _ inner hinner⟩
  · intro i level hl
    obtain ⟨_, hl⟩ | ⟨_, rfl⟩ := levels_extend_cases hinner hl
    · exact hs.newest i level hl
    · exact List.pairwise_cons.mpr ⟨hs.counted _ inner hinner, hs.newest _ inner hinner⟩
  · intro i level hl b hb
    change b.id < s.nextId + 1
    obtain ⟨_, hl⟩ | ⟨_, rfl⟩ := levels_extend_cases hinner hl
    · exact Nat.lt_succ_of_lt (hs.counted i level hl b hb)
    · obtain rfl | hb := List.mem_cons.mp hb
      · exact Nat.lt_succ_self _
      · exact Nat.lt_succ_of_lt (hs.counted _ inner hinner b hb)
  · intro i level link hl hp
    obtain ⟨_, hl⟩ | ⟨rfl, rfl⟩ := levels_extend_cases hinner hl
    · exact hs.outward i level link hl hp
    · exact hs.outward _ inner link hinner hp
  · intro i j low high hij hl hh a ha b hb
    obtain ⟨hi, hl⟩ | ⟨rfl, _⟩ := levels_extend_cases hinner hl
    · obtain ⟨_, hh⟩ | ⟨rfl, rfl⟩ := levels_extend_cases hinner hh
      · exact hs.layered i j low high hij hl hh a ha b hb
      · obtain rfl | hb := List.mem_cons.mp hb
        · exact hs.counted i low hl a ha
        · exact hs.layered i _ low inner hij hl hinner a ha b hb
    · have := lt_depth hh
      rw [depth_extend] at this
      omega

end Valid

theorem visible_new : new.visible = [] := by
  unfold visible
  rw [if_neg (by decide), visibleFrom]
  rfl

/-- Where a name is found, the rest of what is visible is what was visible when it was bound. -/
theorem visible_of_find? {s : Store} (hs : s.Valid) {name : String} {i : Nat} {b : Binding}
    (h : s.find? name = some (i, b)) :
    b.name = name ∧ (∃ level, s.levels[i]? = some level ∧ level.find? name = some b) ∧
      ∃ before after, s.visible = before ++ (i, b) :: after ∧
        (s.newFrame ⟨i, b.id⟩).visible = (i, b) :: after := by
  rw [find?_eq hs] at h
  obtain ⟨hn, before, after, hv, -⟩ := List.find?_eq_some_iff_append.mp h
  have hname : b.name = name := by simpa using hn
  have hd : 0 < s.depth := by
    rcases Nat.eq_zero_or_pos s.depth with hz | hp
    · simp [visible, hz] at hv
    · exact hp
  have hvisible := visible_eq hd
  rw [hv] at hvisible
  have hm : (i, b) ∈ s.visibleFrom (s.depth - 1) none := by
    rw [← hvisible]
    simp
  obtain ⟨-, level, hl, hb⟩ := mem_visibleFrom hs hm
  refine ⟨hname, ⟨level, hl, ?_⟩, before, after, hv, ?_⟩
  · rw [← hname]
    exact Level.find?_of_mem (hs.unique i level hl) hb
  rw [visible_newFrame (lt_depth hl)]
  exact visibleFrom_suffix hs hvisible.symm

/-- A function runs in the scope in which it was bound. -/
theorem find?_of_lookupFunction {s : Store} {name : String} {f : Function} {scope : Scope}
    (h : s.lookupFunction name = .ok (f, scope)) :
    ∃ b, s.find? name = some (scope.level, b) ∧ b.id = scope.horizon ∧ b.entry = .function f := by
  unfold lookupFunction at h
  split at h
  · case h_1 i n id g hf =>
    cases h
    exact ⟨_, hf, rfl, rfl⟩
  · cases h
  · cases h

theorem findFrom_some {s : Store} {name : String} {i j : Nat} {horizon : Option Nat} {b : Binding}
    (h : s.findFrom name i horizon = some (j, b)) :
    ∃ level, s.levels[j]? = some level ∧ level.find? name = some b := by
  fun_induction findFrom s name i horizon with
  | case1 => cases h
  | case2 i horizon level hl c hc =>
    cases h
    exact ⟨level, hl, (Option.filter_eq_some_iff.mp hc).1⟩
  | case3 => cases h
  | case4 i horizon level hl hc link hp hlt ih => exact ih h
  | case5 => cases h

/-- What a search finds is bound on the level that it names. -/
theorem find?_some {s : Store} {name : String} {i : Nat} {b : Binding}
    (h : s.find? name = some (i, b)) :
    ∃ level, s.levels[i]? = some level ∧ level.find? name = some b := by
  unfold Store.find? at h
  split at h
  · cases h
  · exact findFrom_some h

theorem lt_depth_of_lookupFunction {s : Store} (hs : s.Valid) {name : String} {f : Function}
    {scope : Scope} (h : s.lookupFunction name = .ok (f, scope)) : scope.level < s.depth := by
  obtain ⟨b, hb, -⟩ := find?_of_lookupFunction h
  obtain ⟨-, ⟨level, hl, -⟩, -⟩ := visible_of_find? hs hb
  exact lt_depth hl

end Store

end Offside
