import Offside.Proofs.Typing.Slots

/-!
What is written to a slot. The new value takes the type that is wanted in its place; it is found
there afterwards, in the whole of its parts, and within everything that the slot is a part of. All
other slots are as before. And where a value does not fit, nothing is written at all.
-/

namespace Offside

namespace Value

/-- The value with another one in the place that a path leads to. -/
def put : Value → List Nat → Value → Value
  | _, [], new => new
  | .array element items, i :: path, new =>
    .array element (items.modify i fun item => item.put path new)
  | v, _ :: _, _ => v

/-- What is read in the place that a path leads to. -/
def read (v : Value) (path : List Nat) : Except StoreError Value :=
  match v.part? path with
  | some part => .ok part
  | none => .error .outOfBounds

@[simp] theorem read_nil (v : Value) : v.read [] = .ok v :=
  rfl

/-- The type that is wanted in the place that a path leads to, in a variable of the type `ty`: an
array wants items of its element type. -/
def wanted? (ty : Ty) : Value → List Nat → Option Ty
  | _, [] => some ty
  | .array element items, i :: path => (items[i]?).bind fun item => item.wanted? element path
  | _, _ :: _ => none

section Put

variable {v old new : Value} {path other : List Nat}

/-- Whatever contains the place is changed there and nowhere else. -/
theorem part?_put (h : v.part? path = some old) (rest : List Nat) (new : Value) :
    (v.put (path ++ rest) new).part? path = some (old.put rest new) := by
  induction path generalizing v with
  | nil =>
    cases h
    rfl
  | cons i path ih =>
    cases v with
    | array element items =>
      obtain ⟨item, hi, hp⟩ := Option.bind_eq_some_iff.mp h
      simpa [put, part?, hi] using ih hp
    | _ => cases h

/-- A path that parts from that of the place leads to what was there before. -/
theorem part?_put_of_not_prefix (h : ¬ path <+: other) (h' : ¬ other <+: path) :
    (v.put path new).part? other = v.part? other := by
  induction path generalizing v other with
  | nil => exact absurd List.nil_prefix h
  | cons i path ih =>
    cases other with
    | nil => exact absurd List.nil_prefix h'
    | cons j other =>
      cases v with
      | array element items =>
        -- both paths go on in the same item, or they part here
        by_cases hij : i = j
        · subst hij
          rw [List.cons_prefix_cons, not_and] at h h'
          cases hi : items[i]? with
          | none => simp [put, part?, hi]
          | some item => simpa [put, part?, hi] using ih (h rfl) (h' rfl)
        · simp [put, part?, hij]
      | _ => rfl

end Put

section Wanted

variable {v : Value} {ty target element : Ty} {items : List Value} {path : List Nat}

theorem wanted?_concat (h : v.part? path = some (.array element items)) {i : Nat}
    (hi : i < items.length) : v.wanted? ty (path ++ [i]) = some element := by
  induction path generalizing v ty with
  | nil =>
    cases h
    simp [wanted?, List.getElem?_eq_getElem hi]
  | cons j path ih =>
    cases v with
    | array element' items' =>
      obtain ⟨item, hj, hp⟩ := Option.bind_eq_some_iff.mp h
      simpa [wanted?, hj] using ih hp
    | _ => cases h

theorem wanted?_cases (h : v.wanted? ty path = some target) :
    path = [] ∧ target = ty ∨ ∃ before i items, path = before ++ [i] ∧
      v.part? before = some (.array target items) ∧ i < items.length := by
  induction path generalizing v ty with
  | nil =>
    cases h
    exact .inl ⟨rfl, rfl⟩
  | cons i path ih =>
    right
    cases v with
    | array element items =>
      obtain ⟨item, hi, hw⟩ := Option.bind_eq_some_iff.mp h
      obtain ⟨rfl, rfl⟩ | ⟨before, j, items', rfl, hp, hj⟩ := ih hw
      · exact ⟨[], i, items, rfl, rfl, (List.getElem?_eq_some_iff.mp hi).1⟩
      · exact ⟨i :: before, j, items', rfl, Option.bind_eq_some_iff.mpr ⟨item, hi, hp⟩, hj⟩
    | _ => cases h

/-- Where a type is wanted there is something already. -/
theorem part?_of_wanted? (h : v.wanted? ty path = some target) :
    ∃ part, v.part? path = some part := by
  obtain ⟨rfl, -⟩ | ⟨before, i, items, rfl, hp, hi⟩ := wanted?_cases h
  · exact ⟨v, rfl⟩
  · exact ⟨items[i], by rw [part?_concat hp, List.getElem?_eq_getElem hi]⟩

end Wanted

end Value

namespace Slot

/-- The slot that a path leads to from this one. -/
def behind (slot : Slot) (path : List Nat) : Slot :=
  ⟨slot.level, slot.name, slot.path ++ path⟩

@[simp] theorem behind_nil (slot : Slot) : slot.behind [] = slot := by
  simp [behind]

/-- Neither of the slots is a part of the other one. -/
def Apart (a b : Slot) : Prop :=
  ¬ (a.level = b.level ∧ a.name = b.name ∧ (a.path <+: b.path ∨ b.path <+: a.path))

end Slot

namespace Store

/-- The type that a value takes when it is written to a slot: the type that the variable was
declared with, or the element type of the array that the slot is a position in. -/
inductive Wants (s : Store) : Slot → Ty → Prop
  | whole {level : Nat} {name : String} {v : Variable}
      (h : s.variableAt ⟨level, name, []⟩ = .ok v) : s.Wants ⟨level, name, []⟩ v.ty
  | item {slot : Slot} {element : Ty} {items : List Value}
      (h : s.load slot = .ok (.array element items)) (i : Nat) : s.Wants (slot.index i) element

/-- The second store has the value in the slot, and is otherwise like the first one. -/
structure Writes (s : Store) (slot : Slot) (value : Value) (s' : Store) : Prop where
  inside : ∀ path, s'.load (slot.behind path) = value.read path
  around : ∀ (outer : Slot) i path, slot = outer.behind (i :: path) → ∃ old,
    s.load outer = .ok old ∧ s'.load outer = .ok (old.put (i :: path) value)
  elsewhere : ∀ other, slot.Apart other → s'.load other = s.load other
  shape : s'.shape = s.shape
  count : s'.nextId = s.nextId

variable {s s' : Store} {slot : Slot} {new value : Value} {v : Variable}

theorem load_eq_read {ty : Ty} (h : s.variableAt slot = .ok ⟨ty, some value⟩) :
    s.load slot = value.read slot.path := by
  unfold load
  rw [h]
  rfl

/-- A value is put in its place with the type that is wanted there. -/
theorem replace_eq (name : String) (new : Value) (ty : Ty) (old : Value) (path : List Nat) :
    replace name new ty old path = match old.wanted? ty path with
      | some target => (fit name target new).map fun value => old.put path value
      | none => .error .outOfBounds := by
  induction path generalizing ty old with
  | nil => cases h : fit name ty new <;> simp [replace, Value.wanted?, Value.put, h, Except.map]
  | cons i path ih =>
    cases old with
    | array element items =>
      cases hi : items[i]? with
      | none => simp [replace, Value.wanted?, hi]
      | some item =>
        simp only [replace, Value.wanted?, hi, Option.bind_some, ih]
        cases item.wanted? element path with
        | none => rfl
        | some target =>
          cases hf : fit name target new <;>
            simp [hf, Except.map, Value.put, List.modify_eq_set_getElem?, hi]
    | _ => rfl

theorem fit_ok {name : String} {ty : Ty} (h : fit name ty new = .ok value) :
    new.coerce ty = some value := by
  unfold fit at h
  split at h
  · case h_1 w hw =>
    cases h
    exact hw
  · cases h

/-- The new value of a variable when `w`, which has taken the type `target`, is put in the place
that a path leads to. A variable without a value has no other place than itself. -/
inductive Puts (w : Value) : List Nat → Variable → Ty → Value → Prop
  | first (ty : Ty) : Puts w [] ⟨ty, none⟩ ty w
  | within {path : List Nat} {ty target : Ty} {old : Value}
      (h : old.wanted? ty path = some target) : Puts w path ⟨ty, some old⟩ target (old.put path w)

theorem changed_ok (h : changed slot new v = .ok value) :
    ∃ target w, new.coerce target = some w ∧ Puts w slot.path v target value := by
  obtain ⟨level, name, path⟩ := slot
  obtain ⟨ty, held⟩ := v
  cases held with
  | none =>
    unfold changed at h
    dsimp only at h
    split at h
    · exact ⟨ty, value, fit_ok h, .first ty⟩
    · cases h
  | some old =>
    change replace name new ty old path = .ok value at h
    rw [replace_eq] at h
    split at h
    · case h_1 target ht =>
      cases hf : fit name target new with
      | error e =>
        rw [hf] at h
        cases h
      | ok w =>
        rw [hf] at h
        cases h
        exact ⟨target, w, fit_ok hf, .within ht⟩
    · cases h

namespace Puts

variable {w : Value} {level : Nat} {name : String} {path : List Nat} {target : Ty}

theorem part? (h : Puts w path v target value) : value.part? path = some w := by
  cases h with
  | first => rfl
  | within ht =>
    obtain ⟨part, hp⟩ := Value.part?_of_wanted? ht
    simpa [Value.put] using Value.part?_put hp [] w

theorem wants (h : Puts w path v target value) (hv : s.variableAt ⟨level, name, path⟩ = .ok v) :
    s.Wants ⟨level, name, path⟩ target := by
  cases h with
  | first ty => exact .whole hv
  | @within _ ty _ old ht =>
    obtain ⟨rfl, rfl⟩ | ⟨before, i, items, rfl, hp, -⟩ := Value.wanted?_cases ht
    · exact .whole hv
    · have hload : s.load ⟨level, name, before⟩ = .ok (.array target items) :=
        load_iff.mpr ⟨ty, old, hv, hp⟩
      exact .item hload i

/-- Something that goes on behind `before` was changed in one place. -/
theorem around {before : List Nat} {i : Nat} (h : Puts w (before ++ i :: path) v target value) :
    ∃ old part, v.value = some old ∧ old.part? before = some part ∧
      value.part? before = some (part.put (i :: path) w) := by
  generalize hwhole : before ++ i :: path = whole at h
  cases h with
  | first => simp at hwhole
  | within ht =>
    subst hwhole
    obtain ⟨inner, hinner⟩ := Value.part?_of_wanted? ht
    rw [Value.part?_append, Option.bind_eq_some_iff] at hinner
    obtain ⟨part, hp, -⟩ := hinner
    exact ⟨_, part, rfl, hp, Value.part?_put hp _ _⟩

theorem elsewhere {other : List Nat} (h : Puts w path v target value) (hp : ¬ path <+: other)
    (hp' : ¬ other <+: path) :
    ∃ old, v.value = some old ∧ value.part? other = old.part? other := by
  cases h with
  | first => exact absurd List.nil_prefix hp
  | within ht => exact ⟨_, rfl, Value.part?_put_of_not_prefix hp hp'⟩

end Puts

/-- A value takes the type that is wanted in its slot, and nothing changes but the slot. -/
theorem store_writes (h : s.store slot new = .ok s') :
    ∃ target w, s.Wants slot target ∧ new.coerce target = some w ∧ s.Writes slot w s' := by
  obtain ⟨hshape, hcount⟩ := shape_store h
  obtain ⟨⟨ty, held⟩, value, hv, hvalue, rfl⟩ := store_ok h
  obtain ⟨target, w, hw, hputs⟩ := changed_ok hvalue
  have hv' := variableAt_setValue hv value
  refine ⟨target, w, hputs.wants hv, hw, ?_, ?_, ?_, hshape, hcount⟩
  · intro path
    rw [load_eq_read (show variableAt _ (slot.behind path) = _ from hv')]
    simp [Value.read, Slot.behind, Value.part?_append, hputs.part?]
  · rintro outer i path rfl
    obtain ⟨old, part, rfl, hold, hpart⟩ := hputs.around
    exact ⟨part, load_iff.mpr ⟨ty, old, hv, hold⟩, load_iff.mpr ⟨ty, value, hv', hpart⟩⟩
  · intro other hother
    -- another place in the same variable, or another variable
    by_cases hsame : slot.level = other.level ∧ slot.name = other.name
    · obtain ⟨hp, hp'⟩ := not_or.mp fun hp => hother ⟨hsame.1, hsame.2, hp⟩
      obtain ⟨old, rfl, hpart⟩ := hputs.elsewhere hp hp'
      obtain ⟨level, name, path⟩ := other
      obtain ⟨rfl, rfl⟩ := hsame
      rw [load_eq_read (show s.variableAt ⟨_, _, path⟩ = _ from hv),
        load_eq_read (show variableAt _ ⟨_, _, path⟩ = _ from hv'), Value.read, Value.read, hpart]
    · unfold load
      rw [variableAt_setValue_of_ne s value hsame]

theorem store_of_changed (hv : s.variableAt slot = .ok v) (h : changed slot new v = .ok value) :
    ∃ s', s.store slot new = .ok s' := by
  rw [store_eq]
  simp only [hv, h]
  exact ⟨_, rfl⟩

/-- A value that can take the type that is wanted in a slot can be written there. A position must
be there already; a variable may still be without a value. -/
theorem store_of_wants {target : Ty} (ht : s.Wants slot target)
    (hl : slot.path ≠ [] → ∃ old, s.load slot = .ok old) (hw : new.coerce target = some value) :
    ∃ s', s.store slot new = .ok s' := by
  have hfit (name : String) : fit name target new = .ok value := by
    unfold fit
    rw [hw]
  cases ht with
  | @whole level name v hv =>
    obtain ⟨ty, held⟩ := v
    have hchanged : changed ⟨level, name, []⟩ new ⟨ty, held⟩ = .ok value := by
      cases held <;> exact hfit _
    exact store_of_changed hv hchanged
  | @item slot element items h i =>
    obtain ⟨old, hold⟩ := hl (by simp [Slot.index])
    obtain ⟨ty, whole, hv, hp⟩ := load_iff.mp h
    obtain ⟨ty', whole', hv', hp'⟩ := load_iff.mp hold
    cases hv.symm.trans hv'
    have hi : i < items.length := by
      rw [Slot.index, Value.part?_concat hp] at hp'
      exact (List.getElem?_eq_some_iff.mp hp').1
    have hchanged : changed (slot.index i) new ⟨ty, some whole⟩ =
        .ok (whole.put (slot.path ++ [i]) value) := by
      change replace _ new ty whole (slot.path ++ [i]) = _
      rw [replace_eq, Value.wanted?_concat hp hi]
      simp only [hfit]
      rfl
    exact store_of_changed hv' hchanged

/-- What a write does. If it succeeds, the value has taken the type that is wanted in the slot: it
is what is read there from then on, whatever contains the slot has changed in this place alone, and
all other slots, as well as the names, types, functions, numbers and levels, are as before. It
succeeds whenever the value can take that type in a place that is there. If it fails, wherever on
the way, it leaves the store exactly as it was. -/
theorem writes_stay_in_slot (s : Store) (slot : Slot) (new : Value) :
    (∀ s', s.put slot new = (.ok (), s') → ∃ target value, s.Wants slot target ∧
      new.coerce target = some value ∧ s.Writes slot value s') ∧
    (∀ target value, s.Wants slot target → (slot.path ≠ [] → ∃ old, s.load slot = .ok old) →
      new.coerce target = some value → ∃ s', s.put slot new = (.ok (), s')) ∧
    ∀ e s', s.put slot new = (.error e, s') → s' = s := by
  rw [put_eq]
  refine ⟨fun s' h => ?_, fun target value ht hl hw => ?_, fun e s' h => ?_⟩
  · exact store_writes (orUnchanged_eq_ok_iff.mp h)
  · obtain ⟨s', h⟩ := store_of_wants ht hl hw
    exact ⟨s', orUnchanged_eq_ok_iff.mpr h⟩
  · exact (orUnchanged_eq_error_iff.mp h).2

/-- An array of the element type is put into an array of arrays, and a number cannot be. -/
theorem writes_stay_in_slot_of_nested : ∃ s s' : Store, ∃ target value,
    s.load ⟨0, "a", []⟩ = .ok (.array (.array .boolean)
      [.array .boolean [.boolean true], .array .boolean [.boolean false]]) ∧
    s.put ⟨0, "a", [0]⟩ (.array .none []) = (.ok (), s') ∧ s.Wants ⟨0, "a", [0]⟩ target ∧
    (Value.array .none []).coerce target = some value ∧ s.Writes ⟨0, "a", [0]⟩ value s' ∧
    s'.load ⟨0, "a", [1]⟩ = .ok (.array .boolean [.boolean false]) ∧
    s.put ⟨0, "a", [0, 0]⟩ (.number 1) = (.error (.incompatible "a"), s) := by
  let s : Store := ⟨#[⟨[⟨"a", 0, .variable ⟨.array (.array .boolean), some (.array (.array .boolean)
    [.array .boolean [.boolean true], .array .boolean [.boolean false]])⟩⟩], none⟩], 1⟩
  have hload : s.load ⟨0, "a", []⟩ = .ok (.array (.array .boolean)
      [.array .boolean [.boolean true], .array .boolean [.boolean false]]) := rfl
  obtain ⟨hok, hfits, -⟩ := writes_stay_in_slot s ⟨0, "a", [0]⟩ (.array .none [])
  obtain ⟨s', hs⟩ := hfits (.array .boolean) (.array .boolean []) (.item hload 0)
    (fun _ => ⟨_, rfl⟩) (by with_unfolding_all rfl)
  obtain ⟨target, value, ht, hv, hw⟩ := hok s' hs
  obtain ⟨-, -, hfails⟩ := writes_stay_in_slot s ⟨0, "a", [0, 0]⟩ (.number 1)
  obtain ⟨t, ht'⟩ : ∃ t, s.put ⟨0, "a", [0, 0]⟩ (.number 1) = (.error (.incompatible "a"), t) :=
    ⟨_, by with_unfolding_all rfl⟩
  refine ⟨s, s', target, value, hload, hs, ht, hv, hw, hw.elsewhere _ (by simp [Slot.Apart]), ?_⟩
  rw [hfails _ t ht'] at ht'
  exact ht'

end Store

end Offside
