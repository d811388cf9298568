import Offside.Execution.Input
import Offside.Execution.Output

/-!
The state of a running program, and the steps that change it. A step ends with a result or with a
fault, and the state is known after both; or it ends with neither, when the steps that it may take
are used up.
-/

namespace Offside

/-- `depth` counts the calls that are being executed. `location` is that of the statement being
executed. -/
structure Machine where
  store : Store
  input : Input
  output : Output
  depth : Nat
  location : Option Location

def Machine.new (input : Input) (output : Output) : Machine :=
  ⟨.new, input, output, 0, none⟩

/-- Leave a call that the statement at `location` made. -/
def Machine.leave (m : Machine) (location : Option Location) : Machine :=
  { m with depth := m.depth - 1, location := location }

inductive Outcome (α : Type) where
  | done (a : α) (m : Machine)
  | fault (f : RuntimeFault) (m : Machine)
  | exhausted

def Exec (α : Type) : Type :=
  Machine → Outcome α

namespace Exec

variable {α β : Type}

@[inline] def pure (a : α) : Exec α :=
  fun m => .done a m

@[inline] def bind (x : Exec α) (next : α → Exec β) : Exec β := fun m =>
  match x m with
  | .done a m => next a m
  | .fault f m => .fault f m
  | .exhausted => .exhausted

instance : Monad Exec where
  pure := pure
  bind := bind

/-- The steps that may be taken are used up. -/
def exhausted : Exec α :=
  fun _ => .exhausted

/-- A fault of the statement being executed. -/
def fail (cause : RuntimeError) : Exec α :=
  fun m => .fault ⟨cause, m.location⟩ m

/-- The number of calls that are being executed. -/
@[inline] def depth : Exec Nat :=
  fun m => .done m.depth m

def ofExcept (r : Except RuntimeError α) : Exec α :=
  match r with
  | .ok a => pure a
  | .error cause => fail cause

/-- Look something up in the store. -/
def lookup (f : Store → Except StoreError α) : Exec α := fun m =>
  match f m.store with
  | .ok a => .done a m
  | .error e => fail (.store e) m

/-- Do something to the store. -/
def update (f : Store → Except StoreError Unit × Store) : Exec Unit := fun m =>
  match f m.store with
  | (.ok _, s) => .done () { m with store := s }
  | (.error e, s) => fail (.store e) { m with store := s }

def setLocation (loc : Location) : Exec Unit :=
  fun m => .done () { m with location := some loc }

/-- Do something and drop the innermost level afterwards, also after a fault. -/
@[inline] def dropLevelAfter (x : Exec α) : Exec α := fun m =>
  match x m with
  | .done a m => .done a { m with store := m.store.deleteLevel }
  | .fault f m => .fault f { m with store := m.store.deleteLevel }
  | .exhausted => .exhausted

/-- Do something on a new level. -/
@[inline] def onLevel (x : Exec α) : Exec α := fun m =>
  dropLevelAfter x { m with store := m.store.newLevel }

/-- Do something in the frame of a call, and be back at the statement with the call afterwards. -/
@[inline] def inFrame (scope : Scope) (x : Exec α) : Exec α := fun m =>
  let location := m.location
  match dropLevelAfter x { m with store := m.store.newFrame scope, depth := m.depth + 1 } with
  | .done a m => .done a (m.leave location)
  | .fault f m => .fault f (m.leave location)
  | .exhausted => .exhausted

def readWord : Exec String := fun m =>
  match m.input.word with
  | (.ok word, input) => .done word { m with input := input }
  | (.error e, input) =>
    fail (.input e) { m with input := input }

def write (text : String) : Exec Unit := fun m =>
  match m.output.write text with
  | (true, output) => .done () { m with output := output }
  | (false, output) =>
    fail (.output .full) { m with output := output }

def flush : Exec Unit := fun m =>
  if m.output.flushes then .done () m else fail (.output .flush) m

end Exec

end Offside
