import Offside.Location
import Offside.Number.Text
import Offside.Ty

/-!
The syntax trees of programs and their outlines.
-/

namespace Offside

inductive UnaryOp where
  | plus | minus | not
deriving DecidableEq

/-- What computes a value from two values. -/
inductive Operation where
  | or | and
  | equal | different | less | greater | lessEqual | greaterEqual
  | add | subtract | multiply | divide | remainder
deriving DecidableEq

/-- An assignment may compute the new value from the old one first. An index is an operation on a
container, which need not be a value. -/
inductive BinaryOp where
  | assign (base : Option Operation)
  | operation (op : Operation)
  | index
deriving DecidableEq

inductive Expr where
  | boolean (value : Bool)
  | number (value : Float)
  | string (value : String)
  | list (elements : List Expr)
  | identifier (name : String)
  | unary (op : UnaryOp) (arg : Expr)
  | binary (lhs : Expr) (op : BinaryOp) (rhs : Expr)
  | call (name : String) (args : List Expr)

structure Param where
  name : String
  ty : Ty
deriving DecidableEq

/-- A statement has the location of its first token. A function without result returns
`Ty.none`. -/
inductive Stmt where
  | declare (loc : Location) (name : String) (ty : Option Ty) (initializer : Option Expr)
  | define (loc : Location) (name : String) (params : List Param) (returns : Ty)
      (body : List Stmt)
  | expr (loc : Location) (e : Expr)
  | return (loc : Location) (value : Option Expr)
  | print (loc : Location) (e : Expr)
  | read (loc : Location) (target : Expr)
  | cond (loc : Location) (condition : Expr) (thenBlock : List Stmt)
      (elseBlock : Option (List Stmt))
  | while (loc : Location) (condition : Expr) (body : List Stmt)
  | for (loc : Location) (name : String) (range : Expr) (body : List Stmt)

/-- Statements that share one indentation. -/
abbrev Block := List Stmt

namespace BinaryOp

def isAssignment : BinaryOp → Bool
  | .assign _ => true
  | _ => false

/-- What an assignment computes before it stores. -/
def base? : BinaryOp → Option Operation
  | .assign base => base
  | _ => none

end BinaryOp

def Stmt.loc : Stmt → Location
  | .declare loc .. | .define loc .. | .expr loc _ | .return loc _ | .print loc _ | .read loc _
  | .cond loc .. | .while loc .. | .for loc .. => loc

end Offside
