import Offside.Execution.Machine
import Offside.Value.Operation

/-!
One step into an expression. `eval` and `exec` are the meanings of the expressions and statements
that the step meets: the parts of the expression, and the body of a function that it calls.
-/

namespace Offside

/-- What an expression comes to: a slot that can be assigned to, or only a value. -/
inductive Evaluated where
  | slot (s : Slot)
  | value (v : Value)

/-- How a statement ends: the next one follows, or the function around it returns. -/
inductive Signal where
  | next
  | return (value : Option Value)

namespace Exec

def load (slot : Slot) : Exec Value :=
  lookup (·.load slot)

/-- The value of what an expression comes to. -/
def valueOf : Evaluated → Exec Value
  | .slot slot => load slot
  | .value v => pure v

def slotOf : Evaluated → Exec Slot
  | .slot slot => pure slot
  | .value _ => fail .notAssignable

/-- An element of a container. The element of an array that is in a slot is in a slot itself. -/
def element (container : Evaluated) (index : Float) : Exec Evaluated :=
  match container with
  | .slot slot => do
    match ← load slot with
    | .string s => return .value (← ofExcept (Value.character s index))
    | .array _ items =>
      let p ← ofExcept (Value.position index items.length .arrayIndex)
      return .slot (slot.index p)
    | _ => fail .invalidOperands
  | .value (.string s) => return .value (← ofExcept (Value.character s index))
  | .value (.array _ items) => return .value (← ofExcept (Value.element items index))
  | .value _ => fail .invalidOperands

/-- Bind the arguments of a call, as values of the types of the parameters. -/
def bindArgs (function : String) : List Param → List Value → Exec Unit
  | p :: params, v :: values => do
    match v.coerce p.ty with
    | some v =>
      update (·.declare p.name (.variable ⟨p.ty, some v⟩))
      bindArgs function params values
    | none => fail (.incompatibleArgument p.name function)
  | _, _ => pure ()

/-- Execute statements in order, up to one that returns. -/
def sequence (exec : Stmt → Exec Signal) : List Stmt → Exec Signal
  | [] => pure .next
  | stmt :: stmts => do
    match ← exec stmt with
    | .next => sequence exec stmts
    | .return v => return .return v

def block (exec : Stmt → Exec Signal) (stmts : Block) : Exec Signal :=
  onLevel (sequence exec stmts)

/-- The result that a function promises to return. -/
def result (ty : Ty) (returned : Option Value) : Exec (Option Value) :=
  match returned with
  | none => if ty = .none then pure none else fail .missingResult
  | some v =>
    match v.coerce ty with
    | some v => pure (some v)
    | none => fail .incompatibleResult

variable (limit : Nat) (eval : Expr → Exec Evaluated) (exec : Stmt → Exec Signal)

def evalValue (e : Expr) : Exec Value := do
  valueOf (← eval e)

def evalAll : List Expr → Exec (List Value)
  | [] => pure []
  | e :: es => do
    let v ← evalValue eval e
    let vs ← evalAll es
    return v :: vs

/-- The body of a function, in the frame that was opened for it. -/
def body (name : String) (f : Function) (values : List Value) : Exec (Option Value) := do
  bindArgs name f.params values
  match ← block exec f.body with
  | .next => return none
  | .return v => return v

/-- Call a function. Calls that are nested deeper than `limit` are refused. -/
def call (name : String) (args : List Expr) : Exec (Option Value) := do
  let (f, scope) ← lookup (·.lookupFunction name)
  if args.length = f.params.length then
    let values ← evalAll eval args
    if limit ≤ (← depth) then fail (.callDepth limit)
    else
      let returned ← inFrame scope (body exec name f values)
      result f.returns returned
  else
    fail .argumentCount

/-- Assign. The target is evaluated before the new value, and read after it. -/
def assign (lhs : Expr) (base : Option Operation) (rhs : Expr) : Exec Evaluated := do
  let target ← slotOf (← eval lhs)
  let value ← evalValue eval rhs
  let value ← match base with
    | none => pure value
    | some op => do ofExcept (op.apply (← load target) value)
  update (·.put target value)
  return .slot target

def index (lhs rhs : Expr) : Exec Evaluated := do
  let container ← eval lhs
  match (← evalValue eval rhs).asNumber? with
  | some i => element container i
  | none => fail .invalidOperands

/-- The meaning of an expression, from those of its parts. -/
def evalStep : Expr → Exec Evaluated
  | .boolean b => pure (.value (.boolean b))
  | .number x => pure (.value (.number x))
  | .string s => pure (.value (.string s))
  | .list elements => do
    return .value (.ofList (← evalAll eval elements))
  | .identifier name => do
    return .slot (← lookup (·.resolve name))
  | .unary op arg => do
    return .value (← ofExcept (op.apply (← evalValue eval arg)))
  | .binary lhs (.assign base) rhs => assign eval lhs base rhs
  | .binary lhs .index rhs => index eval lhs rhs
  | .binary lhs (.operation op) rhs => do
    let left ← evalValue eval lhs
    let right ← evalValue eval rhs
    return .value (← ofExcept (op.apply left right))
  | .call name args => do
    match ← call limit eval exec name args with
    | some v => return .value v
    | none => fail .voidValue

end Exec

end Offside
