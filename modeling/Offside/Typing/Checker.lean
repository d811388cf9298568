import Offside.Typing

/-!
The checking of programs. A checker goes through a program once. On its way it opens levels in its
store, binds the names that are declared, and notes in which function it is; it takes all of this
back when it leaves a block or a function, also after a fault. So it can be used again.
-/

namespace Offside

/-- `location` is that of the statement that was checked last. `returns` is the type of the function
whose body is checked, if it is one. -/
structure Checker where
  store : Store
  location : Option Location
  returns : Option Ty

def Checker.new : Checker :=
  ⟨.new, none, none⟩

/-- A step of a checker. What it has become is known after a fault too. -/
def Check (α : Type) : Type :=
  Checker → Except SemanticFault α × Checker

namespace Check

variable {α β : Type}

@[inline] def pure (a : α) : Check α :=
  fun c => (.ok a, c)

@[inline] def bind (x : Check α) (next : α → Check β) : Check β := fun c =>
  match x c with
  | (.ok a, c) => next a c
  | (.error fault, c) => (.error fault, c)

instance : Monad Check where
  pure := pure
  bind := bind

/-- Find something out. A fault is one of the statement that is checked. -/
def ask (f : Checker → Except SemanticError α) : Check α := fun c =>
  match f c with
  | .ok a => (.ok a, c)
  | .error cause => (.error ⟨cause, c.location⟩, c)

def setLocation (loc : Location) : Check Unit :=
  fun c => (.ok (), { c with location := some loc })

/-- Bind a name on the innermost level. -/
def register (name : String) (entry : Entry) : Check Unit := fun c =>
  match c.store.declare name entry with
  | (.ok _, s) => (.ok (), { c with store := s })
  | (.error e, s) => (.error ⟨.store e, c.location⟩, { c with store := s })

/-- Do something on a new level, and drop the level afterwards. -/
@[inline] def onLevel (x : Check α) : Check α := fun c =>
  match x { c with store := c.store.newLevel } with
  | (r, c) => (r, { c with store := c.store.deleteLevel })

/-- Do something in the frame of a function, and be back in the function around it afterwards. -/
@[inline] def inFunction (scope : Scope) (returns : Ty) (x : Check α) : Check α := fun c =>
  let outer := c.returns
  match x { c with store := c.store.newFrame scope, returns := some returns } with
  | (r, c) => (r, { c with store := c.store.deleteLevel, returns := outer })

/-- Bind the parameters of a function. -/
def bindParams : List Param → Check Unit
  | [] => pure ()
  | p :: params => do
    register p.name (.variable ⟨p.ty, none⟩)
    bindParams params

end Check

open Check

def Expr.analyze (e : Expr) : Check Typed :=
  ask fun c => e.check c.store

mutual

/-- A statement is checked where it stands. A function is bound before its body is checked. -/
def Stmt.analyze : Stmt → Check Unit
  | .declare loc name ty initializer => do
    setLocation loc
    let ty ← ask fun c => Stmt.declaredType c.store name ty initializer
    register name (.variable ⟨ty, none⟩)
  | .define loc name params result body => do
    setLocation loc
    ask fun _ => Stmt.checkParams params
    register name (.function ⟨params, result, body⟩)
    let (_, scope) ← ask fun c => liftStore (c.store.lookupFunction name)
    inFunction scope result do
      bindParams params
      onLevel (Stmt.analyzeAll body)
  | .expr loc e => do
    setLocation loc
    let _ ← e.analyze
  | .return loc value => do
    setLocation loc
    ask fun c => Stmt.checkReturn c.store c.returns value
  | .print loc e => do
    setLocation loc
    ask fun c => Stmt.checkPrint c.store e
  | .read loc target => do
    setLocation loc
    ask fun c => Stmt.checkRead c.store target
  | .cond loc condition thenBlock elseBlock => do
    setLocation loc
    ask fun c => Stmt.checkCondition c.store condition
    onLevel (Stmt.analyzeAll thenBlock)
    match elseBlock with
    | none => return ()
    | some block => onLevel (Stmt.analyzeAll block)
  | .while loc condition body => do
    setLocation loc
    ask fun c => Stmt.checkCondition c.store condition
    onLevel (Stmt.analyzeAll body)
  | .for loc name range body => do
    setLocation loc
    let element ← ask fun c => Stmt.elementType c.store range
    onLevel do
      register name (.variable ⟨element, none⟩)
      onLevel (Stmt.analyzeAll body)

def Stmt.analyzeAll : List Stmt → Check Unit
  | [] => return ()
  | stmt :: stmts => do
    stmt.analyze
    Stmt.analyzeAll stmts

end

def Block.analyze (block : Block) : Check Unit :=
  onLevel (Stmt.analyzeAll block)

namespace Checker

/-- Check a program on a level of its own. -/
def program (c : Checker) (block : Block) : Except SemanticFault Unit × Checker :=
  block.analyze c

def expr (c : Checker) (e : Expr) : Except SemanticFault Typed :=
  (e.analyze c).1

end Checker

def Block.check (block : Block) : Except SemanticFault Unit :=
  (Checker.new.program block).1

end Offside
