import Offside.Proofs.Results
import Offside.Proofs.Scope.Recast
import Offside.Proofs.Syntax.BlockRenumbering
import Offside.Proofs.Typing.SameTypes

/-!
Stores with functions whose lines have other numbers. A store keeps the bodies of functions without
looking at them, so what can be done to it goes along with a change of their lines.
-/

namespace Offside

def Function.renumber (g : Nat → Nat) (f : Function) : Function :=
  ⟨f.params, f.returns, Block.renumber g f.body⟩

def Entry.renumber (g : Nat → Nat) : Entry → Entry
  | .variable v => .variable v
  | .function f => .function (f.renumber g)

def Binding.renumber (g : Nat → Nat) (b : Binding) : Binding :=
  ⟨b.name, b.id, b.entry.renumber g⟩

def Level.renumber (g : Nat → Nat) (level : Level) : Level :=
  ⟨level.bindings.map (Binding.renumber g), level.parent⟩

variable (g : Nat → Nat)

namespace Level

theorem find?_renumber (level : Level) (name : String) :
    (level.renumber g).find? name = (level.find? name).map (Binding.renumber g) := by
  unfold find? renumber
  rw [List.find?_map]
  rfl

theorem visible?_renumber (level : Level) (name : String) (last : Option Nat) :
    (level.renumber g).visible? name last =
      (level.visible? name last).map (Binding.renumber g) := by
  unfold visible?
  rw [find?_renumber]
  cases level.find? name with
  | none => rfl
  | some b =>
    rw [Option.map_some, Option.filter_some, Option.filter_some]
    refine Eq.trans ?_ (apply_ite (Option.map (Binding.renumber g)) _ (some b) none).symm
    rfl

theorem setValue_renumber (level : Level) (name : String) (held : Option Value) :
    (level.renumber g).setValue name held = (level.setValue name held).renumber g := by
  have hmap (bindings : List Binding) :
      Binding.setFirst name held (bindings.map (Binding.renumber g)) =
        (Binding.setFirst name held bindings).map (Binding.renumber g) := by
    induction bindings with
    | nil => rfl
    | cons b bindings ih =>
      have hname : (b.renumber g).name = b.name := rfl
      by_cases hn : b.name = name
      · simp only [List.map_cons, Binding.setFirst, hname, if_pos hn, List.cons.injEq, and_true]
        obtain ⟨other, id, entry⟩ := b
        cases entry <;> rfl
      · simp only [List.map_cons, Binding.setFirst, hname, if_neg hn, ih]
  simp only [setValue, renumber, hmap]

theorem modify_renumber (levels : Array Level) (i : Nat) (f f' : Level → Level)
    (h : ∀ level, f' (level.renumber g) = (f level).renumber g) :
    (levels.map (renumber g)).modify i f' = (levels.modify i f).map (renumber g) :=
  (map_modify fun level _ => (h level).symm).symm

end Level

namespace Store

def renumber (s : Store) : Store :=
  ⟨s.levels.map (Level.renumber g), s.nextId⟩

theorem new_renumber : new.renumber g = new := by
  simp [new, renumber, Level.renumber, Level.empty]

variable (s : Store)

theorem levels_renumber (i : Nat) :
    (s.renumber g).levels[i]? = (s.levels[i]?).map (Level.renumber g) := by
  simp [renumber]

theorem depth_renumber : (s.renumber g).depth = s.depth := by
  simp [renumber, depth]

theorem find?_renumber (name : String) :
    (s.renumber g).find? name =
      (s.find? name).map fun found => (found.1, found.2.renumber g) := by
  unfold find?
  rw [depth_renumber]
  split
  · rfl
  · exact findFrom_map (s.levels_renumber g) (Level.visible?_renumber g)
      (h := id) (fun level => by cases hp : level.parent <;> simp [Level.renumber, hp])
      (fun _ _ => rfl) name _ none

/-! Of a variable all is as before, and of a function all but its body. -/

theorem resolve_renumber (name : String) : (s.renumber g).resolve name = s.resolve name := by
  unfold resolve
  rw [find?_renumber]
  match s.find? name with
  | none => rfl
  | some (_, ⟨_, _, .variable _⟩) => rfl
  | some (_, ⟨_, _, .function _⟩) => rfl

theorem lookupVariable_renumber (name : String) :
    (s.renumber g).lookupVariable name = s.lookupVariable name := by
  unfold lookupVariable
  rw [find?_renumber]
  match s.find? name with
  | none => rfl
  | some (_, ⟨_, _, .variable _⟩) => rfl
  | some (_, ⟨_, _, .function _⟩) => rfl

theorem lookupFunction_renumber (name : String) :
    (s.renumber g).lookupFunction name =
      (s.lookupFunction name).map fun found => (found.1.renumber g, found.2) := by
  unfold lookupFunction
  rw [find?_renumber]
  match s.find? name with
  | none => rfl
  | some (_, ⟨_, _, .variable _⟩) => rfl
  | some (_, ⟨_, _, .function _⟩) => rfl

theorem sameTypes_renumber : s.SameTypes (s.renumber g) where
  ofVariable name := by rw [lookupVariable_renumber]
  ofFunction name := by
    rw [lookupFunction_renumber]
    cases s.lookupFunction name <;> rfl

theorem variableAt_renumber (slot : Slot) : (s.renumber g).variableAt slot = s.variableAt slot := by
  unfold variableAt
  rw [levels_renumber]
  cases s.levels[slot.level]? with
  | none => rfl
  | some level =>
    rw [Option.map_some, Option.bind_some, Option.bind_some, Level.find?_renumber]
    match level.find? slot.name with
    | none => rfl
    | some ⟨_, _, .variable _⟩ => rfl
    | some ⟨_, _, .function _⟩ => rfl

theorem load_renumber (slot : Slot) : (s.renumber g).load slot = s.load slot := by
  unfold load
  rw [variableAt_renumber]

theorem store_renumber (slot : Slot) (new : Value) :
    (s.renumber g).store slot new = (s.store slot new).map (renumber g) := by
  rw [store_eq, store_eq, variableAt_renumber]
  split
  · rfl
  · split
    · case h_1 value _ =>
      have h := Level.modify_renumber g s.levels slot.level (·.setValue slot.name (some value))
        (·.setValue slot.name (some value)) fun level =>
          Level.setValue_renumber g level slot.name (some value)
      exact congrArg (fun levels => Except.ok (Store.mk levels s.nextId)) h
    · rfl

theorem pushLevel_renumber (parent : Option Link) :
    (s.renumber g).pushLevel parent = (s.pushLevel parent).renumber g := by
  simp [pushLevel, renumber, Level.renumber, Level.empty]

theorem newLevel_renumber : (s.renumber g).newLevel = s.newLevel.renumber g := by
  unfold newLevel
  rw [depth_renumber, pushLevel_renumber]

theorem newFrame_renumber (scope : Scope) :
    (s.renumber g).newFrame scope = (s.newFrame scope).renumber g :=
  s.pushLevel_renumber g _

theorem deleteLevel_renumber : (s.renumber g).deleteLevel = s.deleteLevel.renumber g := by
  simp [deleteLevel, renumber]

theorem register_renumber (name : String) (entry : Entry) :
    (s.renumber g).register name (entry.renumber g) =
      (s.register name entry).map (renumber g) := by
  have hlevels : (if (s.renumber g).depth = 0 then #[.empty none] else (s.renumber g).levels) =
      (if s.depth = 0 then #[.empty none] else s.levels).map (Level.renumber g) := by
    rw [depth_renumber]
    split
    · simp [Level.renumber, Level.empty]
    · rfl
  rw [register_eq_match, register_eq_match]
  extract_lets levels' innermost' bind' levels innermost bind
  have hsize : innermost' = innermost := by
    unfold innermost' innermost
    rw [show levels' = levels.map (Level.renumber g) from hlevels, Array.size_map]
  rw [hsize, show levels' = levels.map (Level.renumber g) from hlevels, Array.getElem?_map]
  have hfind : ((levels[innermost]?.map (Level.renumber g)).bind (·.find? name)) =
      (levels[innermost]?.bind (·.find? name)).map (Binding.renumber g) := by
    cases levels[innermost]? with
    | none => rfl
    | some level => exact Level.find?_renumber g level name
  rw [hfind]
  cases levels[innermost]?.bind (·.find? name) with
  | some b => rfl
  | none =>
    have h := Level.modify_renumber g levels innermost bind bind' fun level => rfl
    exact congrArg (fun levels => Except.ok (Store.mk levels (s.nextId + 1))) h

end Store

end Offside
