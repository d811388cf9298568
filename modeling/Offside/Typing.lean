import Offside.SemanticError

/-!
The types of expressions, and what a statement demands of the expressions in it. Both are about a
store without values, in which every name has the type it is declared with.
-/

namespace Offside

/-- An expression denotes a slot, which can be assigned to, or only a value. -/
inductive Denotation where
  | slot | value
deriving DecidableEq

structure Typed where
  ty : Ty
  denotes : Denotation
deriving DecidableEq

/-- The type of the result of an operation on values. -/
def Operation.resultType? : Operation → Ty → Ty → Option Ty
  | .add, .number, .number | .subtract, .number, .number | .multiply, .number, .number
  | .divide, .number, .number | .remainder, .number, .number => some .number
  | .add, .string, .string => some .string
  | .and, .boolean, .boolean | .or, .boolean, .boolean => some .boolean
  | .equal, a, b | .different, a, b => if a = b ∧ a.isPrimitive then some .boolean else none
  | .less, .number, .number | .greater, .number, .number
  | .lessEqual, .number, .number | .greaterEqual, .number, .number
  | .less, .string, .string | .greater, .string, .string
  | .lessEqual, .string, .string | .greaterEqual, .string, .string => some .boolean
  | _, _, _ => none

def UnaryOp.resultType? : UnaryOp → Ty → Option Ty
  | .plus, .number | .minus, .number => some .number
  | .not, .boolean => some .boolean
  | _, _ => none

/-- What an index finds in a container. The characters of a string are values; the elements of an
array are slots if the array is in one. -/
def Typed.element? (container : Typed) : Option Typed :=
  match container.ty with
  | .string => some ⟨.string, .value⟩
  | .array element => some ⟨element, container.denotes⟩
  | .list .none | .list .mixed => none
  | .list element => some ⟨element, container.denotes⟩
  | _ => none

/-- The name of the variable that is assigned to. -/
def Expr.targetName : Expr → String
  | .identifier name => name
  | .binary lhs _ _ => lhs.targetName
  | _ => "expression"

/-- The type of `lhs op rhs`, from the types of the operands. -/
def BinaryOp.check (op : BinaryOp) (lhs : Expr) (left right : Typed) :
    Except SemanticError Typed :=
  match op with
  | .assign base =>
    if left.denotes = .value then .error .notAssignable
    else
      let fits := match base with
        | none => left.ty.accepts right.ty
        | some op => op.resultType? left.ty right.ty = some left.ty
      if fits then .ok ⟨left.ty, .slot⟩ else .error (.incompatible lhs.targetName)
  | .index =>
    match left.element? with
    | some element => if right.ty = .number then .ok element else .error .invalidOperands
    | none => .error .invalidOperands
  | .operation op =>
    match op.resultType? left.ty right.ty with
    | some ty => .ok ⟨ty, .value⟩
    | none => .error .invalidOperands

def liftStore {α : Type} (r : Except StoreError α) : Except SemanticError α :=
  r.mapError .store

mutual

/-- The type of an expression, and what it denotes. -/
def Expr.check (s : Store) : Expr → Except SemanticError Typed
  | .boolean _ => .ok ⟨.boolean, .value⟩
  | .number _ => .ok ⟨.number, .value⟩
  | .string _ => .ok ⟨.string, .value⟩
  | .list elements => do
    let types ← Expr.checkElements s elements
    return ⟨.ofListLiteral types, .value⟩
  | .identifier name => do
    let v ← liftStore (s.lookupVariable name)
    return ⟨v.ty, .slot⟩
  | .unary op arg => do
    let arg ← arg.check s
    match op.resultType? arg.ty with
    | some ty => return ⟨ty, .value⟩
    | none => throw .invalidOperand
  | .binary lhs op rhs => do
    let left ← lhs.check s
    let right ← rhs.check s
    op.check lhs left right
  | .call name args => do
    let (f, _) ← liftStore (s.lookupFunction name)
    if args.length = f.params.length then
      Expr.checkArgs s name f.params args
      return ⟨f.returns, .value⟩
    else
      throw .argumentCount

/-- The types of the elements of a list literal. -/
def Expr.checkElements (s : Store) : List Expr → Except SemanticError (List Ty)
  | [] => .ok []
  | e :: es => do
    let t ← e.check s
    if t.ty = .none then throw .voidValue
    let ts ← Expr.checkElements s es
    return t.ty :: ts

/-- The arguments of a call fit the parameters. -/
def Expr.checkArgs (s : Store) (function : String) (params : List Param) :
    List Expr → Except SemanticError Unit
  | [] => .ok ()
  | e :: es =>
    match params with
    | [] => .ok ()
    | param :: params => do
      let t ← e.check s
      if param.ty.accepts t.ty then Expr.checkArgs s function params es
      else throw (.incompatibleArgument param.name function)

end

namespace Stmt

/-- The type of a declared variable. -/
def declaredType (s : Store) (name : String) :
    Option Ty → Option Expr → Except SemanticError Ty
  | some ty, some e => do
    let source ← e.check s
    if ty.accepts source.ty then return ty else throw (.incompatible name)
  | some ty, none => return ty
  | none, some e => do
    let source ← e.check s
    match source.ty.concretize? with
    | some ty => return ty
    | none => throw (.undetermined name source.ty)
  | none, none => throw (.bare name)

/-- A result that is returned, where `returns` is the type of the function around it. -/
def checkReturn (s : Store) (returns : Option Ty) (value : Option Expr) :
    Except SemanticError Unit :=
  match returns, value with
  | none, _ => .error .returnOutside
  | some .none, none => .ok ()
  | some _, none => .error .missingResult
  | some .none, some _ => .error .unexpectedResult
  | some ty, some e => do
    let source ← e.check s
    if ty.accepts source.ty then return () else throw .incompatibleResult

def checkPrint (s : Store) (e : Expr) : Except SemanticError Unit := do
  let t ← e.check s
  if t.ty.isPrimitive then return () else throw .invalidOperand

def checkRead (s : Store) (target : Expr) : Except SemanticError Unit := do
  let t ← target.check s
  if !t.ty.isPrimitive then throw .invalidOperand
  else if t.denotes = .value then throw .notReadable
  else return ()

def checkCondition (s : Store) (condition : Expr) : Except SemanticError Unit := do
  let t ← condition.check s
  if t.ty = .boolean then return () else throw .notCondition

/-- The type of a loop variable. A list without elements has elements of no type. -/
def elementType (s : Store) (range : Expr) : Except SemanticError Ty := do
  let t ← range.check s
  match t.ty with
  | .string => return .string
  | .array .mixed | .list .mixed => throw .invalidRange
  | .array element | .list element => return element
  | _ => throw .invalidRange

/-- The parameters of a function have different names. -/
def checkParams (params : List Param) : Except SemanticError Unit :=
  if (params.map Param.name).Nodup then .ok () else .error .duplicateParameter

end Stmt

end Offside
