import Mathlib.Data.List.Basic
import Offside.Store

/-!
What is left of a store by the operations that may fail. A binding that cannot be made and a value
that cannot be written leave everything as it was, down to the arrays that the way to the place of
the value leads through. So what these operations do is known from the store that comes of them when
they succeed.
-/

namespace Offside

namespace Binding

variable {name : String} {b : Binding} {bindings : List Binding} {v : Variable}

/-- A binding behind a write is the variable that was written, or it was there before. -/
theorem mem_setFirst {held : Option Value} {c : Binding} (h : c ∈ setFirst name held bindings) :
    (∃ b v, b ∈ bindings ∧ b.name = name ∧ b.entry = .variable v ∧
      c = ⟨b.name, b.id, .variable ⟨v.ty, held⟩⟩) ∨ c ∈ bindings := by
  induction bindings with
  | nil => cases h
  | cons b bindings ih =>
    by_cases hn : b.name = name
    · rw [setFirst, if_pos hn] at h
      obtain rfl | hc := List.mem_cons.mp h
      · match he : b.entry with
        | .variable v => exact .inl ⟨b, v, List.mem_cons_self, hn, he, rfl⟩
        | .function f =>
          refine .inr (List.mem_cons.mpr (.inl ?_))
          obtain ⟨other, id, entry⟩ := b
          cases he
          rfl
      · exact .inr (List.mem_cons_of_mem _ hc)
    · rw [setFirst, if_neg hn] at h
      obtain rfl | hc := List.mem_cons.mp h
      · exact .inr List.mem_cons_self
      · obtain ⟨b, v, hb, hname, hv, rfl⟩ | hc := ih hc
        · exact .inl ⟨b, v, List.mem_cons_of_mem _ hb, hname, hv, rfl⟩
        · exact .inr (List.mem_cons_of_mem _ hc)

theorem find?_setFirst (hf : bindings.find? (fun b => b.name = name) = some b)
    (held : Option Value) :
    (setFirst name held bindings).find? (fun b => b.name = name) =
      some ⟨b.name, b.id, b.entry.setValue held⟩ := by
  induction bindings with
  | nil => cases hf
  | cons c bindings ih =>
    by_cases hn : c.name = name
    · obtain rfl : c = b := by simpa [hn] using hf
      simp [setFirst, hn]
    · simpa [setFirst, hn] using ih (by simpa [hn] using hf)

theorem find?_setFirst_of_ne {other : String} (h : other ≠ name) (held : Option Value)
    (bindings : List Binding) :
    (setFirst name held bindings).find? (fun b => b.name = other) =
      bindings.find? fun b => b.name = other := by
  induction bindings with
  | nil => rfl
  | cons c bindings ih =>
    by_cases hn : c.name = name
    · have hne : c.name ≠ other := fun he => h (he.symm.trans hn)
      simp [setFirst, hn, hn ▸ hne]
    · simp only [setFirst, if_neg hn, List.find?_cons, ih]

theorem setFirst_self (hf : bindings.find? (fun b => b.name = name) = some b)
    (hv : b.entry = .variable v) : setFirst name v.value bindings = bindings := by
  induction bindings with
  | nil => rfl
  | cons c bindings ih =>
    by_cases hn : c.name = name
    · obtain rfl : c = b := by simpa [hn] using hf
      rw [setFirst, if_pos hn, hv, Entry.setValue, ← hv]
    · rw [setFirst, if_neg hn, ih (by simpa [hn] using hf)]

end Binding

namespace Level

variable {level : Level} {name : String} {b : Binding} {v : Variable}

theorem mem_setValue {held : Option Value} {c : Binding}
    (h : c ∈ (level.setValue name held).bindings) :
    (∃ b v, b ∈ level.bindings ∧ b.name = name ∧ b.entry = .variable v ∧
      c = ⟨b.name, b.id, .variable ⟨v.ty, held⟩⟩) ∨ c ∈ level.bindings :=
  Binding.mem_setFirst h

theorem find?_setValue (hf : level.find? name = some b) (hv : b.entry = .variable v)
    (held : Option Value) :
    (level.setValue name held).find? name = some ⟨b.name, b.id, .variable ⟨v.ty, held⟩⟩ :=
  (Binding.find?_setFirst hf held).trans (by rw [hv]; rfl)

theorem find?_setValue_of_ne (level : Level) {other : String} (h : other ≠ name)
    (held : Option Value) : (level.setValue name held).find? other = level.find? other :=
  Binding.find?_setFirst_of_ne h held level.bindings

theorem setValue_self (hf : level.find? name = some b) (hv : b.entry = .variable v) :
    level.setValue name v.value = level := by
  rw [setValue, Binding.setFirst_self hf hv]

end Level

namespace Store

variable {s s' : Store} {slot : Slot} {v : Variable}

theorem variableAt_ok (h : s.variableAt slot = .ok v) :
    ∃ level b, s.levels[slot.level]? = some level ∧ level.find? slot.name = some b ∧
      b ∈ level.bindings ∧ b.name = slot.name ∧ b.entry = .variable v := by
  unfold variableAt at h
  cases hl : s.levels[slot.level]? with
  | none => simp [hl] at h
  | some level =>
    rw [hl, Option.bind_some] at h
    split at h
    · case h_1 n id v' hf =>
      cases h
      have hn : n = slot.name := by simpa using List.find?_some hf
      exact ⟨level, _, rfl, hf, List.mem_of_find?_eq_some hf, hn, rfl⟩
    · cases h
    · cases h

theorem variableAt_eq {level : Level} {b : Binding} (hl : s.levels[slot.level]? = some level)
    (hf : level.find? slot.name = some b) (hb : b.entry = .variable v) :
    s.variableAt slot = .ok v := by
  obtain ⟨n, id, entry⟩ := b
  cases hb
  unfold variableAt
  rw [hl, Option.bind_some, hf]

/-- A variable that is set to what it holds is as before. -/
theorem setValue_self (h : s.variableAt slot = .ok v) :
    s.levels.modify slot.level (·.setValue slot.name v.value) = s.levels := by
  obtain ⟨level, b, hl, hf, -, -, hv⟩ := variableAt_ok h
  apply Array.ext_getElem?
  intro i
  rw [Array.getElem?_modify]
  split
  · case isTrue hi =>
    subst hi
    rw [hl, Option.map_some, Level.setValue_self hf hv]
  · rfl

/-- What comes of an operation that leaves the store as it is when it fails. -/
def orUnchanged (s : Store) : Except StoreError Store → Except StoreError Unit × Store
  | .ok s' => (.ok (), s')
  | .error e => (.error e, s)

section Unchanged

variable {r : Except StoreError Store} {e : StoreError}

theorem orUnchanged_eq_ok_iff : s.orUnchanged r = (.ok (), s') ↔ r = .ok s' := by
  cases r <;> simp [orUnchanged]

theorem orUnchanged_eq_error_iff : s.orUnchanged r = (.error e, s') ↔ r = .error e ∧ s' = s := by
  cases r <;> simp [orUnchanged, eq_comm]

end Unchanged

/-- A value as one of the type that the variable `name` wants. -/
def fit (name : String) (ty : Ty) (v : Value) : Except StoreError Value :=
  match v.coerce ty with
  | some v => .ok v
  | none => .error (.incompatible name)

/-- The old value of type `ty` in the variable `name`, with a new value at the end of a path. The
new value becomes one of the type that is wanted there. -/
def replace (name : String) (new : Value) (ty : Ty) (old : Value) :
    List Nat → Except StoreError Value
  | [] => fit name ty new
  | i :: path =>
    match old with
    | .array element items =>
      match items[i]? with
      | none => .error .outOfBounds
      | some item =>
        match replace name new element item path with
        | .ok item => .ok (.array element (items.set i item))
        | .error e => .error e
    | _ => .error .outOfBounds

/-- The value of a variable when a new value is put into one of its slots. -/
def changed (slot : Slot) (new : Value) : Variable → Except StoreError Value
  | ⟨ty, none⟩ =>
    match slot.path with
    | [] => fit slot.name ty new
    | _ :: _ => .error (.uninitialized slot.name)
  | ⟨ty, some old⟩ => replace slot.name new ty old slot.path

/-- Whatever the path leads through, and where it ends, is as before if the new value cannot be put
there. -/
theorem putPart_eq (name : String) (new : Value) (ty : Ty) (old : Value) (path : List Nat) :
    putPart name new ty old path =
      match replace name new ty old path with
      | .ok value => (.ok (), value)
      | .error e => (.error e, old) := by
  induction path generalizing ty old with
  | nil =>
    unfold putPart replace fit
    cases new.coerce ty <;> rfl
  | cons i path ih =>
    cases old with
    | array element items =>
      cases hi : items[i]? with
      | none => simp [putPart, replace, hi]
      | some item =>
        simp only [putPart, replace, hi, ih]
        cases replace name new element item path with
        | ok item' => rfl
        | error e =>
          obtain ⟨hlt, rfl⟩ := List.getElem?_eq_some_iff.mp hi
          simp
    | _ => rfl

theorem putHeld_eq (slot : Slot) (new : Value) (ty : Ty) (held : Option Value) :
    putHeld slot new ty held =
      match changed slot new ⟨ty, held⟩ with
      | .ok value => (.ok (), some value)
      | .error e => (.error e, held) := by
  cases held with
  | none =>
    simp only [putHeld, changed, fit]
    cases slot.path with
    | nil => cases new.coerce ty <;> rfl
    | cons i path => rfl
  | some old =>
    simp only [putHeld, changed, putPart_eq]
    cases replace slot.name new ty old slot.path <;> rfl

theorem store_eq (s : Store) (slot : Slot) (new : Value) :
    s.store slot new =
      match s.variableAt slot with
      | .error e => .error e
      | .ok v =>
        match changed slot new v with
        | .ok value =>
          .ok ⟨s.levels.modify slot.level (·.setValue slot.name (some value)), s.nextId⟩
        | .error e => .error e := by
  unfold store put
  cases s.variableAt slot with
  | error e => rfl
  | ok v =>
    simp only [putHeld_eq]
    cases changed slot new v <;> rfl

/-- A value that cannot be put into a slot leaves the store as it was. -/
theorem put_eq (s : Store) (slot : Slot) (new : Value) :
    s.put slot new = s.orUnchanged (s.store slot new) := by
  rw [store_eq]
  unfold put
  cases hv : s.variableAt slot with
  | error e => rfl
  | ok v =>
    simp only [putHeld_eq]
    cases changed slot new v with
    | ok value => rfl
    | error e =>
      simp only [setValue_self hv]
      rfl

/-- A name that cannot be bound leaves the store as it was. -/
theorem declare_eq (s : Store) (name : String) (entry : Entry) :
    s.declare name entry = s.orUnchanged (s.register name entry) := by
  unfold register declare
  by_cases hd : s.depth = 0
  · -- nothing is bound on a level that was just opened
    simp only [hd, if_true]
    rfl
  · simp only [hd, if_false]
    split <;> rfl

theorem register_eq_match (s : Store) (name : String) (entry : Entry) :
    s.register name entry =
      let levels := if s.depth = 0 then #[.empty none] else s.levels
      let innermost := levels.size - 1
      let bind (level : Level) : Level := ⟨⟨name, s.nextId, entry⟩ :: level.bindings, level.parent⟩
      match levels[innermost]?.bind (·.find? name) with
      | some _ => .error (.alreadyDefined name)
      | none => .ok ⟨levels.modify innermost bind, s.nextId + 1⟩ := by
  unfold register declare
  extract_lets levels innermost bind
  cases levels[innermost]?.bind (·.find? name) <;> rfl

/-- What is attempted either leads to the store that is given, or fails and leaves it as it was. -/
def Attempts (attempt : Store → Except StoreError Unit × Store)
    (change : Store → Except StoreError Store) : Prop :=
  ∀ s, attempt s = s.orUnchanged (change s)

theorem Attempts.declare (name : String) (entry : Entry) :
    Attempts (·.declare name entry) (·.register name entry) :=
  fun s => s.declare_eq name entry

theorem Attempts.put (slot : Slot) (new : Value) : Attempts (·.put slot new) (·.store slot new) :=
  fun s => s.put_eq slot new

end Store

end Offside
