import Offside.Syntax
import Offside.Value

/-!
The names that are in use, on a stack of levels. Names are unique on one level and hide those of
outer levels. The level of a block continues the one it is opened on; the level of a call continues
the one its function is bound on, and there only what was bound up to the function. So a function
never sees the names of its callers, nor those bound after it.
-/

namespace Offside

inductive StoreError where
  | alreadyDefined (name : String)
  | undefined (name : String)
  | notVariable (name : String)
  | notFunction (name : String)
  | incompatible (name : String)
  | uninitialized (name : String)
  | outOfBounds
deriving DecidableEq

def StoreError.message : StoreError → String
  | .alreadyDefined name => name ++ " is already defined in this context"
  | .undefined name => name ++ " is undefined in this context"
  | .notVariable name => name ++ " is not a variable"
  | .notFunction name => name ++ " is not a function"
  | .incompatible name => "incompatible type for assignment to " ++ name
  | .uninitialized name => name ++ " has no value"
  | .outOfBounds => "array index out of bounds"

/-- The checker tracks types only, so its variables have no value. -/
structure Variable where
  ty : Ty
  value : Option Value

structure Function where
  params : List Param
  returns : Ty
  body : Block

inductive Entry where
  | variable (v : Variable)
  | function (f : Function)

/-- Bindings are numbered in the order in which they are made. -/
structure Binding where
  name : String
  id : Nat
  entry : Entry

/-- Where a level continues. Of the level it leads to, and of those behind that, only the bindings
up to the horizon are visible. -/
structure Link where
  level : Nat
  horizon : Option Nat
deriving DecidableEq

structure Level where
  bindings : List Binding
  parent : Option Link

/-- The names that were visible where a function was bound: on its level and outwards, up to its
own number. -/
structure Scope where
  level : Nat
  horizon : Nat
deriving DecidableEq

/-- A place that holds a value: a variable on a certain level, or a position in a nested array in
one. -/
structure Slot where
  level : Nat
  name : String
  path : List Nat
deriving DecidableEq

def Slot.index (slot : Slot) (i : Nat) : Slot :=
  ⟨slot.level, slot.name, slot.path ++ [i]⟩

/-- The levels stand in the order in which they were opened, the outermost one first. -/
structure Store where
  levels : Array Level
  nextId : Nat

/-- Set what is held. A function does not hold anything. -/
def Entry.setValue (held : Option Value) : Entry → Entry
  | .variable v => .variable ⟨v.ty, held⟩
  | .function f => .function f

/-- Set what the first binding of a name holds. -/
def Binding.setFirst (name : String) (held : Option Value) : List Binding → List Binding
  | [] => []
  | b :: bindings =>
    if b.name = name then ⟨b.name, b.id, b.entry.setValue held⟩ :: bindings
    else b :: setFirst name held bindings

namespace Level

def empty (parent : Option Link) : Level :=
  ⟨[], parent⟩

def find? (level : Level) (name : String) : Option Binding :=
  level.bindings.find? fun binding => binding.name = name

/-- The binding of a name, unless it was made beyond the horizon. -/
def visible? (level : Level) (name : String) (horizon : Option Nat) : Option Binding :=
  (level.find? name).filter fun binding => horizon.all fun last => binding.id ≤ last

/-- Set what the variable of a name holds. -/
def setValue (level : Level) (name : String) (held : Option Value) : Level :=
  ⟨Binding.setFirst name held level.bindings, level.parent⟩

end Level

namespace Store

/-- A store with a single level, the outermost one. -/
def new : Store :=
  ⟨#[.empty none], 0⟩

def depth (s : Store) : Nat :=
  s.levels.size

def pushLevel (s : Store) (parent : Option Link) : Store :=
  ⟨s.levels.push (.empty parent), s.nextId⟩

/-- Open a level that continues the innermost one. -/
def newLevel (s : Store) : Store :=
  s.pushLevel (if s.depth = 0 then none else some ⟨s.depth - 1, none⟩)

/-- Open the level of a call of a function that was bound in this scope. -/
def newFrame (s : Store) (scope : Scope) : Store :=
  s.pushLevel (some ⟨scope.level, some scope.horizon⟩)

/-- Drop the innermost level with all its bindings. -/
def deleteLevel (s : Store) : Store :=
  ⟨s.levels.pop, s.nextId⟩

/-- The store after something that was done to it, if that has succeeded. -/
def ifDone : Except StoreError Unit × Store → Except StoreError Store
  | (.ok _, s) => .ok s
  | (.error e, _) => .error e

/-- Bind a name on the innermost level. When there is no level, one is opened first. -/
def declare (s : Store) (name : String) (entry : Entry) : Except StoreError Unit × Store :=
  let levels := if s.depth = 0 then #[.empty none] else s.levels
  let innermost := levels.size - 1
  match levels[innermost]?.bind (·.find? name) with
  | some _ => (.error (.alreadyDefined name), ⟨levels, s.nextId⟩)
  | none =>
    let bind (level : Level) : Level := ⟨⟨name, s.nextId, entry⟩ :: level.bindings, level.parent⟩
    (.ok (), ⟨levels.modify innermost bind, s.nextId + 1⟩)

/-- The store with a name bound on its innermost level. -/
def register (s : Store) (name : String) (entry : Entry) : Except StoreError Store :=
  ifDone (s.declare name entry)

/-- The nearer of two horizons. -/
def narrow : Option Nat → Option Nat → Option Nat
  | some a, some b => some (if a ≤ b then a else b)
  | some a, none => some a
  | none, b => b

/-- The binding of a name that is visible from level `i`, and the level it is on. Links lead
outwards. -/
def findFrom (s : Store) (name : String) (i : Nat) (horizon : Option Nat) :
    Option (Nat × Binding) :=
  match s.levels[i]? with
  | none => none
  | some level =>
    match level.visible? name horizon with
    | some binding => some (i, binding)
    | none =>
      match level.parent with
      | none => none
      | some link =>
        if link.level < i then s.findFrom name link.level (narrow horizon link.horizon)
        else none
termination_by i

def find? (s : Store) (name : String) : Option (Nat × Binding) :=
  if s.depth = 0 then none else s.findFrom name (s.depth - 1) none

def lookupVariable (s : Store) (name : String) : Except StoreError Variable :=
  match s.find? name with
  | some (_, ⟨_, _, .variable v⟩) => .ok v
  | some (_, ⟨_, _, .function _⟩) => .error (.notVariable name)
  | none => .error (.undefined name)

/-- The function of a name, and the scope in which its body runs. -/
def lookupFunction (s : Store) (name : String) : Except StoreError (Function × Scope) :=
  match s.find? name with
  | some (level, ⟨_, id, .function f⟩) => .ok (f, ⟨level, id⟩)
  | some (_, ⟨_, _, .variable _⟩) => .error (.notFunction name)
  | none => .error (.undefined name)

/-- The slot of a variable. -/
def resolve (s : Store) (name : String) : Except StoreError Slot :=
  match s.find? name with
  | some (level, ⟨_, _, .variable _⟩) => .ok ⟨level, name, []⟩
  | some (_, ⟨_, _, .function _⟩) => .error (.notVariable name)
  | none => .error (.undefined name)

/-- The variable that a slot belongs to. -/
def variableAt (s : Store) (slot : Slot) : Except StoreError Variable :=
  match s.levels[slot.level]?.bind (·.find? slot.name) with
  | some ⟨_, _, .variable v⟩ => .ok v
  | some ⟨_, _, .function _⟩ => .error (.notVariable slot.name)
  | none => .error (.undefined slot.name)

/-- The value in a slot. -/
def load (s : Store) (slot : Slot) : Except StoreError Value :=
  match s.variableAt slot with
  | .error e => .error e
  | .ok ⟨_, none⟩ => .error (.uninitialized slot.name)
  | .ok ⟨_, some value⟩ =>
    match value.part? slot.path with
    | some part => .ok part
    | none => .error .outOfBounds

/-- Put a new value at the end of a path in an old one, which is of type `ty` and in the variable
`name`. The new value becomes one of the type that is wanted there. With the result comes what there
is in the place of the old value afterwards, also when the new one does not fit. -/
def putPart (name : String) (new : Value) (ty : Ty) (old : Value) :
    List Nat → Except StoreError Unit × Value
  | [] =>
    match new.coerce ty with
    | some value => (.ok (), value)
    | none => (.error (.incompatible name), old)
  | i :: path =>
    match old with
    | .array element items =>
      match items[i]? with
      | some item =>
        let (result, item) := putPart name new element item path
        (result, .array element (items.set i item))
      | none => (.error .outOfBounds, old)
    | _ => (.error .outOfBounds, old)

/-- The same for what the variable of a slot holds. While it holds nothing, it has no other slot than
itself. -/
def putHeld (slot : Slot) (new : Value) (ty : Ty) :
    Option Value → Except StoreError Unit × Option Value
  | none =>
    match slot.path with
    | [] =>
      match new.coerce ty with
      | some value => (.ok (), some value)
      | none => (.error (.incompatible slot.name), none)
    | _ :: _ => (.error (.uninitialized slot.name), none)
  | some old =>
    let (result, value) := putPart slot.name new ty old slot.path
    (result, some value)

/-- Put a value into a slot. -/
def put (s : Store) (slot : Slot) (new : Value) : Except StoreError Unit × Store :=
  match s.variableAt slot with
  | .error e => (.error e, s)
  | .ok v =>
    let (result, held) := putHeld slot new v.ty v.value
    (result, ⟨s.levels.modify slot.level (·.setValue slot.name held), s.nextId⟩)

/-- The store with a value in a slot. -/
def store (s : Store) (slot : Slot) (new : Value) : Except StoreError Store :=
  ifDone (s.put slot new)

end Store

end Offside
