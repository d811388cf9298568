import Offside.Proofs.Scope.Shape
import Offside.Proofs.Typing.Rules
import Offside.Proofs.Typing.SameTypes

/-!
Stores in which the same names mean the same. The levels that the names are on need not correspond,
nor do the numbers of the bindings; the typing rules do not tell such stores apart.
-/

namespace Offside

namespace Store

theorem find?_context {s : Store} (hs : s.Valid) (name : String) :
    (s.find? name).map (fun entry => (entry.2.name, entry.2.entry.erase)) =
      s.context.find? fun entry => entry.1 = name := by
  rw [find?_eq hs, context, List.find?_map]
  rfl

theorem context_newLevel {s : Store} (h : 0 < s.depth) : s.newLevel.context = s.context := by
  unfold context
  rw [visible_newLevel h]

theorem context_extend {s : Store} (h : 0 < s.depth) (hs : s.Valid) (name : String)
    (entry : Entry) : (s.extend name entry).context = (name, entry.erase) :: s.context := by
  unfold context
  rw [visible_extend h hs]
  rfl

/-- What was bound last is found first, and it sees all that was visible before it. -/
theorem find?_extend {s : Store} (h : 0 < s.depth) (hs : s.Valid) {name : String}
    (hn : name ∉ s.locals) (entry : Entry) :
    (s.extend name entry).find? name = some (s.depth - 1, ⟨name, s.nextId, entry⟩) ∧
      ((s.extend name entry).newFrame ⟨s.depth - 1, s.nextId⟩).visible =
        (s.extend name entry).visible := by
  have hvalid := hs.extend h hn entry
  have hv := visible_extend h hs name entry
  have hd := visible_eq (s := s.extend name entry) (by simpa using h)
  rw [depth_extend] at hd
  refine ⟨by rw [find?_eq hvalid, hv, List.find?_cons_of_pos (by simp)], ?_⟩
  rw [visible_newFrame (by simp only [depth_extend]; omega)]
  have hsuffix : (s.extend name entry).visibleFrom (s.depth - 1) none =
      [] ++ (s.depth - 1, ⟨name, s.nextId, entry⟩) :: s.visible := by
    rw [← hd, hv]
    rfl
  rw [visibleFrom_suffix hvalid hsuffix, hv]

theorem lookupFunction_extend {s : Store} (h : 0 < s.depth) (hs : s.Valid) {name : String}
    (hn : name ∉ s.locals) (f : Function) :
    (s.extend name (.function f)).lookupFunction name = .ok (f, ⟨s.depth - 1, s.nextId⟩) := by
  unfold lookupFunction
  rw [(find?_extend h hs hn (.function f)).1]

/-- A function that was just bound is found. -/
theorem lookupFunction_register {s s' : Store} (hs : s.Valid) {name : String} {f : Function}
    (h : s.register name (.function f) = .ok s') :
    ∃ scope, s'.lookupFunction name = .ok (f, scope) := by
  by_cases hd : 0 < s.depth
  · obtain ⟨hn, rfl⟩ := register_ok hd h
    exact ⟨_, lookupFunction_extend hd hs hn f⟩
  · have hnew : 0 < s.newLevel.depth := by simp
    rw [register_of_empty (by omega)] at h
    obtain ⟨hn, rfl⟩ := register_ok hnew h
    exact ⟨_, lookupFunction_extend hnew hs.newLevel hn f⟩

/-- The same names are in scope in both stores, with the same types and functions, and the same ones
are bound on the innermost level. The typing rules are about `s`, and `t` is at work, in a checker
or in a running program. -/
structure Resembles (s t : Store) : Prop where
  checked : s.Valid
  checking : 0 < s.depth
  valid : t.Valid
  running : 0 < t.depth
  context : s.context = t.context
  locals : s.locals = t.locals

namespace Resembles

variable {s t t' : Store}

theorem refl (hs : s.Valid) (hd : 0 < s.depth) : s.Resembles s :=
  ⟨hs, hd, hs, hd, rfl, rfl⟩

theorem of_shape (h : s.Resembles t) (hshape : t'.shape = t.shape) (hn : t.nextId ≤ t'.nextId) :
    s.Resembles t' where
  checked := h.checked
  checking := h.checking
  valid := h.valid.of_shape hshape hn
  running := by
    rw [depth_of_shape hshape]
    exact h.running
  context := by rw [context_of_shape hshape, h.context]
  locals := by rw [locals_of_shape hshape, h.locals]

theorem newLevel (h : s.Resembles t) : s.newLevel.Resembles t.newLevel where
  checked := h.checked.newLevel
  checking := by simp
  valid := h.valid.newLevel
  running := by simp
  context := by rw [context_newLevel h.checking, context_newLevel h.running, h.context]
  locals := by rw [locals_newLevel, locals_newLevel]

theorem extend (h : s.Resembles t) {name : String} (hn : name ∉ s.locals) {d e : Entry}
    (he : d.erase = e.erase) : (s.extend name d).Resembles (t.extend name e) where
  checked := h.checked.extend h.checking hn d
  checking := by
    rw [depth_extend]
    exact h.checking
  valid := h.valid.extend h.running (h.locals ▸ hn) e
  running := by
    rw [depth_extend]
    exact h.running
  context := by
    rw [context_extend h.checking h.checked, context_extend h.running h.valid, h.context, he]
  locals := by rw [locals_extend h.checking, locals_extend h.running, h.locals]

/-- The frame of a function sees all that is in scope when the function has just been bound. -/
theorem newFrame (h : s.Resembles t) {name : String} (hn : name ∉ s.locals) (entry : Entry) :
    ((s.extend name entry).newFrame ⟨s.depth - 1, s.nextId⟩).Resembles
      ((t.extend name entry).newFrame ⟨t.depth - 1, t.nextId⟩) := by
  have he := h.extend hn (rfl : entry.erase = entry.erase)
  have hs := (find?_extend h.checking h.checked hn entry).2
  have ht := (find?_extend h.running h.valid (h.locals ▸ hn) entry).2
  constructor
  · refine he.checked.newFrame ?_
    have := h.checking
    simp only [depth_extend]
    omega
  · simp
  · refine he.valid.newFrame ?_
    have := h.running
    simp only [depth_extend]
    omega
  · simp
  · have hcontext := he.context
    unfold Store.context at hcontext ⊢
    rw [hs, ht, hcontext]
  · rw [locals_newFrame, locals_newFrame]

/-- Both find a name or neither does, with the same type or function. -/
theorem find? (h : s.Resembles t) (name : String) :
    (s.find? name).map (fun entry => (entry.2.name, entry.2.entry.erase)) =
      (t.find? name).map fun entry => (entry.2.name, entry.2.entry.erase) := by
  rw [find?_context h.checked, find?_context h.valid, h.context]

/-- Either both find the same variable or function, up to a value, or neither finds the name. -/
theorem find?_cases (h : s.Resembles t) (name : String) :
    s.find? name = none ∧ t.find? name = none ∨
      (∃ i n id v j n' id' w, s.find? name = some (i, ⟨n, id, .variable v⟩) ∧
        t.find? name = some (j, ⟨n', id', .variable w⟩) ∧ w.ty = v.ty) ∨
      ∃ i n id j n' id' f, s.find? name = some (i, ⟨n, id, .function f⟩) ∧
        t.find? name = some (j, ⟨n', id', .function f⟩) := by
  have hfind := h.find? name
  match hs : s.find? name, ht : t.find? name with
  | none, none => exact .inl ⟨rfl, rfl⟩
  | none, some _ | some _, none =>
    rw [hs, ht] at hfind
    cases hfind
  | some (i, ⟨n, id, .variable v⟩), some (j, ⟨n', id', .variable w⟩) =>
    rw [hs, ht] at hfind
    simp only [Option.map_some, Entry.erase, Option.some.injEq, Prod.mk.injEq,
      Entry.variable.injEq, Variable.mk.injEq, and_true] at hfind
    exact .inr (.inl ⟨i, n, id, v, j, n', id', w, rfl, rfl, hfind.2.symm⟩)
  | some (i, ⟨n, id, .function f⟩), some (j, ⟨n', id', .function g⟩) =>
    rw [hs, ht] at hfind
    simp only [Option.map_some, Entry.erase, Option.some.injEq, Prod.mk.injEq,
      Entry.function.injEq] at hfind
    obtain ⟨-, rfl⟩ := hfind
    exact .inr (.inr ⟨i, n, id, j, n', id', f, rfl, rfl⟩)
  | some (_, ⟨_, _, .variable _⟩), some (_, ⟨_, _, .function _⟩)
  | some (_, ⟨_, _, .function _⟩), some (_, ⟨_, _, .variable _⟩) =>
    rw [hs, ht] at hfind
    cases hfind

/-- The names have the same types, so the rules do not tell the stores apart. -/
theorem sameTypes (h : s.Resembles t) : s.SameTypes t := by
  refine ⟨fun name => ?_, fun name => ?_⟩
  · unfold lookupVariable
    obtain ⟨hs, ht⟩ | ⟨_, _, _, v, _, _, _, w, hs, ht, hty⟩ | ⟨_, _, _, _, _, _, f, hs, ht⟩ :=
      h.find?_cases name
    · rw [hs, ht]
    · rw [hs, ht]
      exact congrArg Except.ok hty.symm
    · rw [hs, ht]
  · unfold lookupFunction
    obtain ⟨hs, ht⟩ | ⟨_, _, _, v, _, _, _, w, hs, ht, -⟩ | ⟨_, _, _, _, _, _, f, hs, ht⟩ :=
      h.find?_cases name
    · rw [hs, ht]
    · rw [hs, ht]
    · rw [hs, ht]
      rfl

end Resembles

end Store

end Offside
