import Offside.Proofs.Scope.Shape

/-!
Lexical closures, the way a textbook has them: every open level has an environment, which takes
names to places, and a function keeps the environment that it was bound in. Whatever is done to a
store, names mean the same in it and here. So one number for each call and one for each function
stand for whole environments.
-/

namespace Offside

/-- Where the contents of a name are kept: the level that it is bound on, and the number of the
binding. -/
structure Place where
  level : Nat
  id : Nat
deriving DecidableEq

/-- Of two places of one name the first counts. -/
abbrev Environment := List (String × Place)

/-- What is kept at a place. A function keeps its environment, in which it is bound itself. -/
inductive Cell where
  | variable (v : Variable)
  | function (f : Function) (environment : Environment)

def Cell.ofEntry (entry : Entry) (environment : Environment) : Cell :=
  match entry with
  | .variable v => .variable v
  | .function f => .function f environment

/-- An open level: what is bound on it itself, and all that is in scope on it. -/
structure Layer where
  own : Environment
  environment : Environment

/-- The cells stand in the order in which they were made. -/
structure Lexical where
  layers : Array Layer
  cells : Array Cell

namespace Lexical

def new : Lexical :=
  ⟨#[⟨[], []⟩], #[]⟩

/-- The environment of the innermost level. -/
def environment (r : Lexical) : Environment :=
  match r.layers.back? with
  | none => []
  | some layer => layer.environment

/-- Open a level with the environment of the innermost one. -/
def newLevel (r : Lexical) : Lexical :=
  ⟨r.layers.push ⟨[], r.environment⟩, r.cells⟩

/-- Open a level with the environment of the function that has this scope. -/
def newFrame (r : Lexical) (scope : Scope) : Lexical :=
  match r.cells[scope.horizon]? with
  | some (.function _ environment) => ⟨r.layers.push ⟨[], environment⟩, r.cells⟩
  | _ => ⟨r.layers.push ⟨[], []⟩, r.cells⟩

def deleteLevel (r : Lexical) : Lexical :=
  ⟨r.layers.pop, r.cells⟩

/-- What is bound on the innermost level itself. -/
def own (r : Lexical) : Environment :=
  match r.layers.back? with
  | none => []
  | some layer => layer.own

def extend (r : Lexical) (name : String) (entry : Entry) : Lexical :=
  let place : Place := ⟨r.layers.size - 1, r.cells.size⟩
  let environment := (name, place) :: r.environment
  ⟨r.layers.modify (r.layers.size - 1) fun layer => ⟨(name, place) :: layer.own, environment⟩,
    r.cells.push (.ofEntry entry environment)⟩

/-- Bind a name on the innermost level, unless it is bound on that level itself. When no level is
open, one is opened first. -/
def register (r : Lexical) (name : String) (entry : Entry) : Except StoreError Lexical :=
  let r := if r.layers.size = 0 then r.newLevel else r
  if (r.own.lookup name).isSome then .error (.alreadyDefined name) else .ok (r.extend name entry)

/-- Put a value into a slot. Of all there is only the variable of the slot changes. -/
def store (r : Lexical) (slot : Slot) (new : Value) : Except StoreError Lexical :=
  match r.layers[slot.level]?.bind (·.own.lookup slot.name) with
  | none => .error (.undefined slot.name)
  | some place =>
    match r.cells[place.id]? with
    | some (.variable v) =>
      match Store.changed slot new v with
      | .ok value => .ok ⟨r.layers, r.cells.modify place.id fun _ => .variable ⟨v.ty, some value⟩⟩
      | .error e => .error e
    | _ => .error (.notVariable slot.name)

/-- The place of a name that is in scope, with what is kept there. -/
def find? (r : Lexical) (name : String) : Option (Place × Cell) :=
  (r.environment.lookup name).bind fun place => r.cells[place.id]?.map (place, ·)

def lookupVariable (r : Lexical) (name : String) : Except StoreError Variable :=
  match r.find? name with
  | some (_, .variable v) => .ok v
  | some (_, .function ..) => .error (.notVariable name)
  | none => .error (.undefined name)

def lookupFunction (r : Lexical) (name : String) : Except StoreError (Function × Scope) :=
  match r.find? name with
  | some (place, .function f _) => .ok (f, ⟨place.level, place.id⟩)
  | some (_, .variable _) => .error (.notFunction name)
  | none => .error (.undefined name)

def resolve (r : Lexical) (name : String) : Except StoreError Slot :=
  match r.find? name with
  | some (place, .variable _) => .ok ⟨place.level, name, []⟩
  | some (_, .function ..) => .error (.notVariable name)
  | none => .error (.undefined name)

end Lexical

namespace Store

inductive Op where
  | newLevel
  | newFrame (scope : Scope)
  | deleteLevel
  | register (name : String) (entry : Entry)
  | store (slot : Slot) (value : Value)
  | lookupFunction (name : String)

/-- A store with the scopes that were looked up in it and whose levels were not deleted since. -/
structure Session where
  store : Store
  scopes : List Scope

/-- The result of an operation that may fail, and then changes nothing. -/
def orSame {α : Type} (a : α) : Except StoreError α → α
  | .ok b => b
  | .error _ => a

def Op.apply : Op → Session → Session
  | .newLevel, ⟨s, scopes⟩ => ⟨s.newLevel, scopes⟩
  | .newFrame scope, ⟨s, scopes⟩ => ⟨s.newFrame scope, scopes⟩
  | .deleteLevel, ⟨s, scopes⟩ =>
    ⟨s.deleteLevel, scopes.filter fun scope => scope.level < s.depth - 1⟩
  | .register name entry, ⟨s, scopes⟩ => ⟨(s.declare name entry).2, scopes⟩
  | .store slot value, ⟨s, scopes⟩ => ⟨(s.put slot value).2, scopes⟩
  | .lookupFunction name, ⟨s, scopes⟩ =>
    match s.lookupFunction name with
    | .ok (_, scope) => ⟨s, scope :: scopes⟩
    | .error _ => ⟨s, scopes⟩

def Op.applyLexical : Op → Lexical → Lexical
  | .newLevel, r => r.newLevel
  | .newFrame scope, r => r.newFrame scope
  | .deleteLevel, r => r.deleteLevel
  | .register name entry, r => orSame r (r.register name entry)
  | .store slot value, r => orSame r (r.store slot value)
  | .lookupFunction _, r => r

/-- A frame is opened only in a scope that was looked up and still stands. -/
def Op.Legal : Op → Session → Prop
  | .newFrame scope, session => scope ∈ session.scopes
  | _, _ => True

/-- What there is after some operations, in the store and in the textbook. -/
inductive Reached : List Op → Session → Lexical → Prop
  | start : Reached [] ⟨.new, []⟩ .new
  | step {ops : List Op} {session : Session} {r : Lexical} (h : Reached ops session r) (op : Op)
      (legal : op.Legal session) : Reached (ops ++ [op]) (op.apply session) (op.applyLexical r)

theorem lookup_map {α : Type} (entries : List α) (name : String) (key : α → String)
    (place : α → Place) :
    (entries.map fun a => (key a, place a)).lookup name =
      (entries.find? fun a => key a = name).map place := by
  induction entries with
  | nil => rfl
  | cons a entries ih =>
    rw [List.map_cons, List.lookup_cons]
    by_cases h : key a = name
    · simp [h]
    · have hb : (name == key a) = false := by simpa using fun he => h he.symm
      simp [h, hb, ih]

/-- What is visible from a level, as an environment. -/
def placesFrom (s : Store) (i : Nat) (horizon : Option Nat) : Environment :=
  (s.visibleFrom i horizon).map fun entry => (entry.2.name, ⟨entry.1, entry.2.id⟩)

/-- What a binding of level `i` says, with the environment that its number stands for. -/
def cellOf (s : Store) (i : Nat) (b : Binding) : Cell :=
  .ofEntry b.entry (s.placesFrom i (some b.id))

structure Represents (s : Store) (r : Lexical) : Prop where
  valid : s.Valid
  size : r.layers.size = s.depth
  layers : ∀ (i : Nat) level, s.levels[i]? = some level →
    r.layers[i]? =
      some ⟨level.bindings.map fun b => (b.name, ⟨i, b.id⟩), s.placesFrom i none⟩
  cells : ∀ (i : Nat) level, s.levels[i]? = some level → ∀ b ∈ level.bindings,
    r.cells[b.id]? = some (s.cellOf i b)
  count : r.cells.size = s.nextId

/-- The function of a scope is still bound. -/
def Stands (s : Store) (scope : Scope) : Prop :=
  ∃ level b f, s.levels[scope.level]? = some level ∧ b ∈ level.bindings ∧
    b.id = scope.horizon ∧ b.entry = .function f

theorem placesFrom_congr {s t : Store} {i : Nat} (h : ∀ j ≤ i, t.levels[j]? = s.levels[j]?)
    (horizon : Option Nat) : t.placesFrom i horizon = s.placesFrom i horizon := by
  unfold placesFrom
  rw [visibleFrom_congr h]

theorem placesFrom_of_shape {s t : Store} (h : t.shape = s.shape) (i : Nat)
    (horizon : Option Nat) : t.placesFrom i horizon = s.placesFrom i horizon := by
  have := congrArg (List.map fun entry : Nat × Binding =>
    (entry.2.name, (⟨entry.1, entry.2.id⟩ : Place))) (visibleFrom_of_shape h i horizon)
  simpa [placesFrom, List.map_map, Function.comp_def, Binding.erase] using this

theorem cellOf_congr {s t : Store} {i : Nat} (h : ∀ j ≤ i, t.levels[j]? = s.levels[j]?)
    (b : Binding) : t.cellOf i b = s.cellOf i b := by
  unfold cellOf
  rw [placesFrom_congr h]

namespace Represents

variable {s : Store} {r : Lexical}

theorem layers_back? (h : Represents s r) : r.layers.back? = r.layers[s.depth - 1]? := by
  rw [Array.back?_eq_getElem?, h.size]

theorem environment_eq (h : Represents s r) :
    r.environment = s.visible.map fun entry => (entry.2.name, ⟨entry.1, entry.2.id⟩) := by
  unfold Lexical.environment
  rw [h.layers_back?]
  by_cases hd : s.depth = 0
  · have hn : r.layers[s.depth - 1]? = none := by
      refine Array.getElem?_eq_none_iff.mpr ?_
      have hsize := h.size
      omega
    rw [hn]
    simp [visible, hd]
  · obtain ⟨level, hl⟩ := exists_innermost (s := s) (by omega)
    rw [h.layers _ level hl, visible_eq (by omega)]
    rfl

theorem own_lookup (h : Represents s r) (hd : 0 < s.depth) (name : String) :
    (r.own.lookup name).isSome ↔ name ∈ s.locals := by
  obtain ⟨level, hl⟩ := exists_innermost hd
  unfold Lexical.own locals
  rw [h.layers_back?, h.layers _ level hl, hl]
  simp only
  rw [lookup_map, Option.isSome_map]
  exact Level.find?_isSome_iff

theorem find?_eq (h : Represents s r) (name : String) :
    r.find? name =
      (s.find? name).map fun entry => (⟨entry.1, entry.2.id⟩, s.cellOf entry.1 entry.2) := by
  unfold Lexical.find?
  rw [h.environment_eq, Store.find?_eq h.valid, lookup_map]
  cases hf : s.visible.find? fun entry => entry.2.name = name with
  | none => rfl
  | some entry =>
    obtain ⟨i, b⟩ := entry
    have hm := List.mem_of_find?_eq_some hf
    unfold visible at hm
    split at hm
    · cases hm
    · obtain ⟨-, level, hl, hb⟩ := mem_visibleFrom h.valid hm
      simp [h.cells i level hl b hb]

/-- A name means the same in a store as in the textbook. -/
theorem lookups_eq (h : Represents s r) (name : String) :
    s.lookupVariable name = r.lookupVariable name ∧
      s.lookupFunction name = r.lookupFunction name ∧ s.resolve name = r.resolve name := by
  unfold lookupVariable lookupFunction resolve
  unfold Lexical.lookupVariable Lexical.lookupFunction Lexical.resolve
  rw [h.find?_eq name]
  match s.find? name with
  | none => exact ⟨rfl, rfl, rfl⟩
  | some (_, ⟨_, _, .variable _⟩) => exact ⟨rfl, rfl, rfl⟩
  | some (_, ⟨_, _, .function _⟩) => exact ⟨rfl, rfl, rfl⟩

theorem new : Represents .new .new where
  valid := .new
  size := rfl
  layers i level hl := by
    obtain ⟨hi, he⟩ := Array.getElem?_eq_some_iff.mp hl
    have hzero : i = 0 := by simp [Store.new] at hi; exact hi
    subst hzero
    subst he
    have hv : Store.new.visibleFrom 0 none = [] := by
      rw [visibleFrom]
      rfl
    simp [placesFrom, hv]
    rfl
  cells i level hl b hb := by
    obtain ⟨hi, he⟩ := Array.getElem?_eq_some_iff.mp hl
    have hzero : i = 0 := by simp [Store.new] at hi; exact hi
    subst hzero
    subst he
    cases hb
  count := rfl

/-- Opening a level says what is in scope on it. -/
theorem pushLevel (h : Represents s r) {parent : Option Link} {environment : Environment}
    (hp : ∀ link, parent = some link → link.level < s.depth)
    (he : (s.pushLevel parent).placesFrom s.depth none = environment) :
    Represents (s.pushLevel parent) ⟨r.layers.push ⟨[], environment⟩, r.cells⟩ where
  valid := h.valid.pushLevel parent hp
  size := by simp [h.size]
  layers i level hl := by
    obtain ⟨hi, hl⟩ | ⟨rfl, rfl⟩ := levels_pushLevel_cases hl
    · rw [Array.getElem?_push, if_neg (by rw [h.size]; omega), h.layers i level hl,
        placesFrom_congr fun j hj => levels_pushLevel_of_lt s parent (by omega)]
    · rw [he, ← h.size]
      simp [Level.empty]
  cells i level hl b hb := by
    obtain ⟨hi, hl⟩ | ⟨rfl, rfl⟩ := levels_pushLevel_cases hl
    · rw [cellOf_congr fun j hj => levels_pushLevel_of_lt s parent (by omega)]
      exact h.cells i level hl b hb
    · cases hb
  count := h.count

theorem newLevel (h : Represents s r) : Represents s.newLevel r.newLevel := by
  refine h.pushLevel (fun link hl => ?_) ?_
  · split at hl
    · cases hl
    · cases hl
      simp only
      omega
  · change s.newLevel.placesFrom s.depth none = r.environment
    have hv := visible_eq (s := s.newLevel) (by simp)
    rw [depth_newLevel, Nat.add_sub_cancel] at hv
    unfold placesFrom
    rw [h.environment_eq, ← hv]
    by_cases hd : s.depth = 0
    · rw [visible_newLevel_of_none hd]
      simp [visible, hd]
    · rw [visible_newLevel (by omega)]

/-- The number of a function stands for the environment that it was bound in. -/
theorem newFrame (h : Represents s r) {scope : Scope} (hs : s.Stands scope) :
    Represents (s.newFrame scope) (r.newFrame scope) := by
  obtain ⟨level, b, f, hl, hb, hid, hf⟩ := hs
  have hlt := lt_depth hl
  have hc : r.cells[scope.horizon]? =
      some (.function f (s.placesFrom scope.level (some scope.horizon))) := by
    rw [← hid, h.cells _ level hl b hb, cellOf, hf]
    rfl
  unfold Lexical.newFrame
  rw [hc]
  refine h.pushLevel (fun link hp => ?_) ?_
  · cases hp
    exact hlt
  · have hv := visible_eq (s := s.newFrame scope) (by simp)
    rw [depth_newFrame, Nat.add_sub_cancel, visible_newFrame hlt] at hv
    unfold placesFrom
    rw [hv]
    rfl

theorem deleteLevel (h : Represents s r) : Represents s.deleteLevel r.deleteLevel where
  valid := h.valid.deleteLevel
  size := by simp [Lexical.deleteLevel, h.size]
  layers i level hl := by
    obtain ⟨hlt, hl⟩ := levels_deleteLevel_cases hl
    unfold Lexical.deleteLevel
    rw [Array.getElem?_pop, if_pos (by rw [h.size]; exact hlt), h.layers i level hl,
      placesFrom_congr fun j hj => levels_deleteLevel_of_lt s (by omega)]
  cells i level hl b hb := by
    obtain ⟨hlt, hl⟩ := levels_deleteLevel_cases hl
    rw [cellOf_congr fun j hj => levels_deleteLevel_of_lt s (by omega)]
    exact h.cells i level hl b hb
  count := h.count

/-- Binding a name extends the environment of the innermost level and no other. -/
theorem extend (h : Represents s r) (hd : 0 < s.depth) {name : String} (hn : name ∉ s.locals)
    (entry : Entry) : Represents (s.extend name entry) (r.extend name entry) := by
  obtain ⟨inner, hinner⟩ := exists_innermost hd
  have hvalid := h.valid.extend hd hn entry
  have hvisible := visible_extend hd h.valid name entry
  have hplaces : (s.extend name entry).placesFrom (s.depth - 1) none =
      (name, ⟨s.depth - 1, s.nextId⟩) :: r.environment := by
    unfold placesFrom
    rw [← depth_extend s name entry, ← visible_eq (by simpa using hd), hvisible,
      h.environment_eq, depth_extend]
    rfl
  have old : ∀ {id : Nat} (_ : id < s.nextId) (c : Cell), (r.cells.push c)[id]? = r.cells[id]? :=
    fun hid c => by rw [Array.getElem?_push, if_neg (by rw [h.count]; omega)]
  constructor
  · exact hvalid
  · simp [Lexical.extend, h.size]
  · intro i level hl
    simp only [Lexical.extend]
    rw [Array.getElem?_modify, h.size, h.count]
    obtain ⟨hi, hl⟩ | ⟨rfl, rfl⟩ := levels_extend_cases hinner hl
    · rw [if_neg (by omega), h.layers i level hl,
        placesFrom_congr fun j hj => levels_extend_of_lt s name entry (by omega)]
    · rw [if_pos rfl, h.layers _ inner hinner, hplaces]
      rfl
  · intro i level hl b hb
    simp only [Lexical.extend]
    obtain ⟨hi, hl⟩ | ⟨rfl, rfl⟩ := levels_extend_cases hinner hl
    · rw [cellOf_congr fun j hj => levels_extend_of_lt s name entry (by omega),
        old (h.valid.counted i level hl b hb)]
      exact h.cells i level hl b hb
    · obtain rfl | hb := List.mem_cons.mp hb
      · have he := visible_eq (s := s.extend name entry) (by simpa using hd)
        rw [depth_extend] at he
        have hnil := (he.symm.trans hvisible).trans (List.nil_append _).symm
        have hsuffix := visibleFrom_suffix hvalid hnil
        have hcell : (s.extend name entry).placesFrom (s.depth - 1) (some s.nextId) =
            (s.extend name entry).placesFrom (s.depth - 1) none := by
          unfold placesFrom
          rw [hsuffix, ← he, hvisible]
        rw [cellOf, hcell, hplaces, ← h.count, h.size]
        simp
      · unfold cellOf placesFrom
        rw [visibleFrom_extend_of_mem hd h.valid hvalid hinner hb,
          old (h.valid.counted _ inner hinner b hb)]
        exact h.cells _ inner hinner b hb
  · simp [Lexical.extend, h.count]
    rfl

theorem register_of_pos (h : Represents s r) (hd : 0 < s.depth) (name : String)
    (entry : Entry) :
    r.register name entry =
      if name ∈ s.locals then .error (.alreadyDefined name) else .ok (r.extend name entry) := by
  have hsize : ¬r.layers.size = 0 := by rw [h.size]; omega
  unfold Lexical.register
  simp only [hsize, if_false, h.own_lookup hd]

theorem register (h : Represents s r) (name : String) (entry : Entry) :
    (∃ e, s.register name entry = .error e ∧ r.register name entry = .error e) ∨
      ∃ s' r', s.register name entry = .ok s' ∧ r.register name entry = .ok r' ∧
        Represents s' r' := by
  have opened : ∀ {s : Store} {r : Lexical}, Represents s r → 0 < s.depth →
      (∃ e, s.register name entry = .error e ∧ r.register name entry = .error e) ∨
        ∃ s' r', s.register name entry = .ok s' ∧ r.register name entry = .ok r' ∧
          Represents s' r' := by
    intro s r h hd
    rw [register_eq hd, h.register_of_pos hd]
    by_cases hn : name ∈ s.locals
    · exact .inl ⟨.alreadyDefined name, by simp only [hn, if_true], by simp only [hn, if_true]⟩
    · exact .inr ⟨_, _, by simp only [hn, if_false], by simp only [hn, if_false],
        h.extend hd hn entry⟩
  by_cases hd : s.depth = 0
  · have hr : r.register name entry = r.newLevel.register name entry := by
      have hopen : ¬r.newLevel.layers.size = 0 := by simp [Lexical.newLevel]
      unfold Lexical.register
      rw [if_pos (h.size.trans hd), if_neg hopen]
    rw [register_of_empty hd, hr]
    exact opened h.newLevel (by simp)
  · exact opened h (by omega)

/-- The place of a variable, from its slot. -/
theorem own_place (h : Represents s r) (slot : Slot) :
    r.layers[slot.level]?.bind (·.own.lookup slot.name) =
      (s.levels[slot.level]?.bind (·.find? slot.name)).map fun b => ⟨slot.level, b.id⟩ := by
  cases hl : s.levels[slot.level]? with
  | none =>
    have hn : r.layers[slot.level]? = none := by
      rw [Array.getElem?_eq_none_iff] at hl ⊢
      rw [h.size]
      exact hl
    rw [hn]
    rfl
  | some level =>
    rw [h.layers _ level hl]
    simp only [Option.bind_some]
    rw [lookup_map]
    rfl

/-- A write changes one cell, and no environment. -/
theorem write (h : Represents s r) {slot : Slot} {value new : Value} {level : Level}
    {b : Binding} {v : Variable} (hl : s.levels[slot.level]? = some level)
    (hb : b ∈ level.bindings) (hname : b.name = slot.name) (hv : b.entry = .variable v)
    (hs : s.store slot value =
      .ok ⟨s.levels.modify slot.level (·.setValue slot.name (some new)), s.nextId⟩) :
    Represents ⟨s.levels.modify slot.level (·.setValue slot.name (some new)), s.nextId⟩
      ⟨r.layers, r.cells.modify b.id fun _ => .variable ⟨v.ty, some new⟩⟩ := by
  obtain ⟨hshape, hnext⟩ := shape_store hs
  have hcell : ∀ (i : Nat) (c : Binding),
      cellOf ⟨s.levels.modify slot.level (·.setValue slot.name (some new)), s.nextId⟩ i c =
        s.cellOf i c := by
    intro i c
    unfold cellOf
    rw [placesFrom_of_shape hshape]
  have other : ∀ (i : Nat) low c, s.levels[i]? = some low → c ∈ low.bindings → c ≠ b →
      (r.cells.modify b.id fun _ => .variable ⟨v.ty, some new⟩)[c.id]? =
        some (s.cellOf i c) := by
    intro i low c hlow hc hne
    rw [Array.getElem?_modify, if_neg, h.cells i low hlow c hc]
    exact fun he => hne (h.valid.binding_ext hlow hl hc hb he.symm).2
  constructor
  · exact h.valid.of_shape hshape (Nat.le_of_eq hnext.symm)
  · exact h.size.trans (depth_of_shape hshape).symm
  · intro i level' hl'
    obtain ⟨old, hold, he⟩ := levels_of_shape hshape hl'
    have hmap := congrArg (fun l : Level => l.bindings.map fun c =>
      (c.name, (⟨i, c.id⟩ : Place))) he
    simp only [Level.erase, List.map_map, Function.comp_def, Binding.erase] at hmap
    rw [placesFrom_of_shape hshape, ← hmap]
    exact h.layers i old hold
  · intro i level' hl' c hc
    rw [hcell]
    simp only [Array.getElem?_modify] at hl'
    split at hl'
    · case isTrue hi =>
      subst hi
      rw [hl] at hl'
      cases hl'
      by_cases hn : c.name = slot.name
      · -- no two names on a level are the same, so this is the variable that was written
        have hfind := Level.find?_of_mem (h.valid.unique _ level hl) hb
        have hset := Level.find?_setValue (hname ▸ hfind) hv (some new)
        have hnodup := Level.names_setValue level slot.name (some new) ▸ h.valid.unique _ level hl
        have hsame := Level.find?_of_mem hnodup hc
        rw [hn, hset] at hsame
        cases hsame
        rw [Array.getElem?_modify, if_pos rfl, h.cells _ level hl b hb]
        rfl
      · obtain ⟨old, w, -, hold, -, rfl⟩ | hold := Level.mem_setValue hc
        · exact absurd hold hn
        · exact other _ level c hl hold fun he => hn (he ▸ hname)
    · case isFalse hi =>
      refine other i level' c hl' hc fun he => hi ?_
      subst he
      exact (h.valid.binding_ext hl' hl hc hb rfl).1.symm
  · simp [h.count]

theorem store (h : Represents s r) (slot : Slot) (value : Value) :
    (∃ e, s.store slot value = .error e ∧ r.store slot value = .error e) ∨
      ∃ s' r', s.store slot value = .ok s' ∧ r.store slot value = .ok r' ∧
        Represents s' r' := by
  rw [store_eq]
  unfold Lexical.store variableAt
  rw [h.own_place]
  cases hl : s.levels[slot.level]? with
  | none => exact .inl ⟨_, rfl, rfl⟩
  | some level =>
    cases hf : level.find? slot.name with
    | none => exact .inl ⟨.undefined slot.name, by simp [hf], by simp [hf]⟩
    | some b =>
      have hb : b ∈ level.bindings := List.mem_of_find?_eq_some hf
      have hname : b.name = slot.name := by simpa using List.find?_some hf
      have hcell := h.cells _ level hl b hb
      obtain ⟨bname, id, entry⟩ := b
      match entry with
      | .function f =>
        exact .inl ⟨.notVariable slot.name, by simp [hf], by simp [hf, hcell, cellOf, Cell.ofEntry]⟩
      | .variable v =>
        cases hc : changed slot value v with
        | error e => exact .inl ⟨e, by simp [hf, hc], by simp [hf, hcell, cellOf, Cell.ofEntry, hc]⟩
        | ok new =>
          refine .inr ⟨_, _, by simp only [Option.bind_some, hf, hc]; rfl,
            by simp only [Option.bind_some, hf, Option.map_some, hcell, cellOf, Cell.ofEntry, hc]; rfl, ?_⟩
          have hstore : s.store slot value =
              .ok ⟨s.levels.modify slot.level (·.setValue slot.name (some new)), s.nextId⟩ := by
            simp [store_eq, variableAt, hl, hf, hc]
          exact h.write hl hb hname rfl hstore

end Represents

theorem Stands.of_levels {s t : Store} {scope : Scope} (h : s.Stands scope)
    (hl : t.levels[scope.level]? = s.levels[scope.level]?) : t.Stands scope := by
  obtain ⟨level, b, f, hs, hb⟩ := h
  exact ⟨level, b, f, hl.trans hs, hb⟩

theorem Stands.lt_depth {s : Store} {scope : Scope} (h : s.Stands scope) :
    scope.level < s.depth := by
  obtain ⟨level, b, f, hl, -⟩ := h
  exact Store.lt_depth hl

theorem lookupFunction_stands {s : Store} (hs : s.Valid) {name : String} {f : Function}
    {scope : Scope} (h : s.lookupFunction name = .ok (f, scope)) : s.Stands scope := by
  obtain ⟨b, hb, hid, hf⟩ := find?_of_lookupFunction h
  obtain ⟨-, ⟨level, hl, hfind⟩, -⟩ := visible_of_find? hs hb
  exact ⟨level, b, f, hl, List.mem_of_find?_eq_some hfind, hid, hf⟩

theorem Stands.register {s s' : Store} {scope : Scope} (h : s.Stands scope) {name : String}
    {entry : Entry} (hr : s.register name entry = .ok s') : s'.Stands scope := by
  have hlt := h.lt_depth
  obtain ⟨level, b, f, hl, hb, hid, hf⟩ := h
  have hd : 0 < s.depth := by omega
  obtain ⟨-, rfl⟩ := register_ok hd hr
  by_cases hi : scope.level < s.depth - 1
  · exact ⟨level, b, f, (levels_extend_of_lt s name entry hi).trans hl, hb, hid, hf⟩
  · have he : scope.level = s.depth - 1 := by omega
    rw [he] at hl
    exact ⟨_, b, f, he ▸ levels_extend_self s name entry hl, List.mem_cons_of_mem _ hb, hid, hf⟩

theorem Stands.of_shape {s t : Store} {scope : Scope} (h : s.Stands scope)
    (hshape : t.shape = s.shape) : t.Stands scope := by
  obtain ⟨level, b, f, hl, hb, hid, hf⟩ := h
  obtain ⟨level', hl', he⟩ := levels_of_shape hshape.symm hl
  have hm : b.erase ∈ level'.bindings.map Binding.erase := by
    have := List.mem_map_of_mem (f := Binding.erase) hb
    rwa [← show level'.erase.bindings = level.bindings.map Binding.erase from
      congrArg Level.bindings he] at this
  obtain ⟨b', hb', heb⟩ := List.mem_map.mp hm
  refine ⟨level', b', f, hl', hb', ?_, ?_⟩
  · exact (congrArg Binding.id heb).trans hid
  · have hentry : b'.entry.erase = b.entry.erase := congrArg Binding.entry heb
    rw [hf] at hentry
    match hb' : b'.entry with
    | .variable v => rw [hb'] at hentry; cases hentry
    | .function g => rw [hb'] at hentry; cases hentry; rfl

theorem Stands.store {s s' : Store} {scope : Scope} (h : s.Stands scope) {slot : Slot}
    {value : Value} (hw : s.store slot value = .ok s') : s'.Stands scope :=
  h.of_shape (shape_store hw).1

theorem Stands.pushLevel {s : Store} {scope : Scope} (h : s.Stands scope) (parent : Option Link) :
    (s.pushLevel parent).Stands scope :=
  h.of_levels (levels_pushLevel_of_lt s parent h.lt_depth)

/-- The scopes that may still be used are those of functions that are still bound, and the store
and the textbook agree. -/
theorem Reached.represents {ops : List Op} {session : Session} {r : Lexical}
    (h : Reached ops session r) :
    Represents session.store r ∧ ∀ scope ∈ session.scopes, session.store.Stands scope := by
  induction h with
  | start => exact ⟨.new, fun scope hs => nomatch hs⟩
  | @step ops session r h op legal ih =>
    obtain ⟨s, scopes⟩ := session
    obtain ⟨hr, hs⟩ := ih
    cases op with
    | newLevel =>
      exact ⟨hr.newLevel, fun scope hm => (hs scope hm).pushLevel _⟩
    | newFrame scope =>
      exact ⟨hr.newFrame (hs scope legal), fun scope hm => (hs scope hm).pushLevel _⟩
    | deleteLevel =>
      refine ⟨hr.deleteLevel, fun scope hm => ?_⟩
      obtain ⟨hm, hlt⟩ := List.mem_filter.mp hm
      exact (hs scope hm).of_levels (levels_deleteLevel_of_lt s (by simpa using hlt))
    | register name entry =>
      obtain ⟨e, hse, hre⟩ | ⟨s', r', hso, hro, hr'⟩ := hr.register name entry
      · simpa [Op.apply, Op.applyLexical, declare_eq, orUnchanged, hse, hre, orSame] using ⟨hr, hs⟩
      · simpa [Op.apply, Op.applyLexical, declare_eq, orUnchanged, hso, hro, orSame] using
          ⟨hr', fun scope hm => (hs scope hm).register hso⟩
    | store slot value =>
      obtain ⟨e, hse, hre⟩ | ⟨s', r', hso, hro, hr'⟩ := hr.store slot value
      · simpa [Op.apply, Op.applyLexical, put_eq, orUnchanged, hse, hre, orSame] using ⟨hr, hs⟩
      · simpa [Op.apply, Op.applyLexical, put_eq, orUnchanged, hso, hro, orSame] using
          ⟨hr', fun scope hm => (hs scope hm).store hso⟩
    | lookupFunction name =>
      cases hf : s.lookupFunction name with
      | error e => simpa [Op.apply, Op.applyLexical, hf] using ⟨hr, hs⟩
      | ok found =>
        obtain ⟨f, scope⟩ := found
        refine ⟨by simpa [Op.apply, Op.applyLexical, hf] using hr, fun other hm => ?_⟩
        simp only [Op.apply, hf, List.mem_cons] at hm ⊢
        obtain rfl | hm := hm
        · exact lookupFunction_stands hr.valid hf
        · exact hs other hm

/-- Whatever was done to a store before, every name means in it what the environment of the
innermost level says, and a name can be bound exactly if the innermost level itself does not bind
it yet. -/
theorem names_mean_closures {ops : List Op} {session : Session} {r : Lexical}
    (h : Reached ops session r) (name : String) :
    session.store.lookupVariable name = r.lookupVariable name ∧
      session.store.lookupFunction name = r.lookupFunction name ∧
      session.store.resolve name = r.resolve name ∧
      ∀ entry e, session.store.register name entry = .error e ↔
        r.register name entry = .error e := by
  obtain ⟨hr, -⟩ := h.represents
  obtain ⟨hv, hf, hs⟩ := hr.lookups_eq name
  refine ⟨hv, hf, hs, fun entry e => ?_⟩
  obtain ⟨e', hse, hre⟩ | ⟨s', r', hso, hro, -⟩ := hr.register name entry
  · rw [hse, hre]
    simp
  · rw [hso, hro]
    simp

/-- The body of a function sees neither what was bound behind the function nor what its caller
bound. -/
theorem names_mean_closures_in_frame :
    ∃ session r, Reached [.register "x" (.variable ⟨.number, none⟩),
        .register "f" (.function ⟨[], .none, []⟩), .register "late" (.variable ⟨.number, none⟩),
        .newLevel, .register "x" (.variable ⟨.string, none⟩), .lookupFunction "f",
        .newFrame ⟨0, 1⟩] session r ∧
      session.store.resolve "x" = .ok ⟨0, "x", []⟩ ∧
      session.store.resolve "late" = .error (.undefined "late") := by
  have h := ((((((Reached.start.step (.register "x" (.variable ⟨.number, none⟩)) trivial).step
    (.register "f" (.function ⟨[], .none, []⟩)) trivial).step
    (.register "late" (.variable ⟨.number, none⟩)) trivial).step .newLevel trivial).step
    (.register "x" (.variable ⟨.string, none⟩)) trivial).step
    (.lookupFunction "f") trivial).step (.newFrame ⟨0, 1⟩)
    (show (⟨0, 1⟩ : Scope) ∈ _ by decide +kernel)
  exact ⟨_, _, h, (names_mean_closures h "x").2.2.1.trans rfl,
    (names_mean_closures h "late").2.2.1.trans rfl⟩

end Store

end Offside
