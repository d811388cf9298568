import Offside.Execution.Expr

/-!
One step into a statement.
-/

namespace Offside.Exec

/-- The type and the first value of a declared variable. -/
def initialValue (name : String) (ty : Option Ty) (value : Option Value) : Exec (Ty × Value) := do
  let ty ← match ty, value with
    | some ty, _ => pure ty
    | none, some v =>
      match v.ty.concretize? with
      | some ty => pure ty
      | none => fail (.undetermined name)
    | none, none => fail (.bare name)
  let fitting := match value with
    | some v => v.coerce ty
    | none => Value.default? ty
  match fitting with
  | some v => return (ty, v)
  | none => fail (.store (.incompatible name))

/-- Repeat a loop body, at most `n` times, while its condition holds. Each time the statement being
executed is the loop again. -/
def repeatWhile (loc : Location) (condition : Exec Bool) (body : Exec Signal) : Nat → Exec Signal
  | 0 => exhausted
  | n + 1 => do
    setLocation loc
    if ← condition then
      match ← body with
      | .next => repeatWhile loc condition body n
      | .return v => return .return v
    else
      return .next

/-- Do something for every item, each time on a level with the loop variable. -/
def forEach (name : String) (element : Ty) (body : Exec Signal) : List Value → Exec Signal
  | [] => pure .next
  | item :: items => do
    let signal ← onLevel do
      update (·.declare name (.variable ⟨element, some item⟩))
      body
    match signal with
    | .next => forEach name element body items
    | .return v => return .return v

variable (limit : Nat) (eval : Expr → Exec Evaluated) (exec : Stmt → Exec Signal)

def evalOptional : Option Expr → Exec (Option Value)
  | none => pure none
  | some e => do return some (← evalValue eval e)

def evalCondition (condition : Expr) : Exec Bool := do
  match (← evalValue eval condition).asBoolean? with
  | some b => return b
  | none => fail .notCondition

/-- Read a word of input into the slot that an expression denotes. -/
def readInto (target : Expr) : Exec Unit := do
  let slot ← slotOf (← eval target)
  let old ← load slot
  let word ← readWord
  let new ← ofExcept (Value.ofInput word old.ty)
  update (·.put slot new)

/-- The meaning of a statement, from those of its parts. A loop may be repeated `n` times. -/
def execStep (n : Nat) (stmt : Stmt) : Exec Signal := do
  setLocation stmt.loc
  match stmt with
  | .declare _ name ty initializer =>
    let value ← evalOptional eval initializer
    let (ty, v) ← initialValue name ty value
    update (·.declare name (.variable ⟨ty, some v⟩))
    return .next
  | .define _ name params returns body =>
    update (·.declare name (.function ⟨params, returns, body⟩))
    return .next
  | .expr _ (.call name args) =>
    let _ ← call limit eval exec name args
    return .next
  | .expr _ e =>
    let _ ← eval e
    return .next
  | .return _ value => return .return (← evalOptional eval value)
  | .print _ e =>
    let v ← evalValue eval e
    write (v.display ++ "\n")
    return .next
  | .read _ target =>
    readInto eval target
    return .next
  | .cond _ condition thenBlock elseBlock =>
    if ← evalCondition eval condition then block exec thenBlock
    else
      match elseBlock with
      | some stmts => block exec stmts
      | none => return .next
  | .while loc condition body =>
    repeatWhile loc (evalCondition eval condition) (block exec body) n
  | .for _ name range body =>
    match (← evalValue eval range).elements? with
    | some (element, items) => forEach name element (block exec body) items
    | none => fail .invalidRange

end Offside.Exec
