import Offside.Typing

/-!
Typing as a function from stores to stores. A statement gives the store behind it, and what a block
declares is gone with the store of the block; no store is ever restored.
-/

namespace Offside

namespace Stmt

/-- A fault of the statement at `loc`. -/
def located {α : Type} (loc : Location) (r : Except SemanticError α) : Except SemanticFault α :=
  r.mapError fun cause => ⟨cause, some loc⟩

/-- Bind variables without values. -/
def bindAll (s : Store) : List Param → Except SemanticError Store
  | [] => .ok s
  | p :: ps => do
    let s ← liftStore (s.register p.name (.variable ⟨p.ty, none⟩))
    bindAll s ps

/-- The store in which the body of a function is checked, beside the one with the function. -/
def bindFunction (s : Store) (name : String) (f : Function) :
    Except SemanticError (Store × Store) := do
  if (f.params.map Param.name).Nodup then
    let s ← liftStore (s.register name (.function f))
    let (_, scope) ← liftStore (s.lookupFunction name)
    let frame ← bindAll (s.newFrame scope) f.params
    return (s, frame)
  else
    throw .duplicateParameter

end Stmt

mutual

/-- The store behind a statement, where `returns` is the type of the function around it. -/
def Stmt.check (s : Store) (returns : Option Ty) : Stmt → Except SemanticFault Store
  | .declare loc name ty initializer => Stmt.located loc do
    let ty ← Stmt.declaredType s name ty initializer
    liftStore (s.register name (.variable ⟨ty, none⟩))
  | .define loc name params result body => do
    let (s, frame) ← Stmt.located loc (Stmt.bindFunction s name ⟨params, result, body⟩)
    Stmt.checkAll frame.newLevel (some result) body
    return s
  | .expr loc e => do
    let _ ← Stmt.located loc (e.check s)
    return s
  | .return loc value => do
    Stmt.located loc (Stmt.checkReturn s returns value)
    return s
  | .print loc e => do
    Stmt.located loc (Stmt.checkPrint s e)
    return s
  | .read loc target => do
    Stmt.located loc (Stmt.checkRead s target)
    return s
  | .cond loc condition thenBlock elseBlock => do
    Stmt.located loc (Stmt.checkCondition s condition)
    Stmt.checkAll s.newLevel returns thenBlock
    match elseBlock with
    | none => return s
    | some block =>
      Stmt.checkAll s.newLevel returns block
      return s
  | .while loc condition body => do
    Stmt.located loc (Stmt.checkCondition s condition)
    Stmt.checkAll s.newLevel returns body
    return s
  | .for loc name range body => do
    let frame ← Stmt.located loc do
      let element ← Stmt.elementType s range
      liftStore (s.newLevel.register name (.variable ⟨element, none⟩))
    Stmt.checkAll frame.newLevel returns body
    return s

/-- The statements of a block, on the level that was opened for them. -/
def Stmt.checkAll (s : Store) (returns : Option Ty) : List Stmt → Except SemanticFault Unit
  | [] => .ok ()
  | stmt :: stmts => do
    let s ← stmt.check s returns
    Stmt.checkAll s returns stmts

end

end Offside
