import Offside.Execution.Stmt

/-!
The execution of programs. Calls are limited in depth, but a loop may go on for ever; so execution
is given a number of steps. It bounds how deeply expressions, statements and calls are nested in
each other and how often a loop is repeated, and a run that ends is the same for every number that
is large enough.
-/

namespace Offside

mutual

/-- The meaning of an expression, when calls may be nested up to `limit`. -/
def Expr.eval (limit : Nat) : Nat → Expr → Exec Evaluated
  | 0, _ => .exhausted
  | n + 1, e => Exec.evalStep limit (Expr.eval limit n) (Stmt.exec limit n) e

def Stmt.exec (limit : Nat) : Nat → Stmt → Exec Signal
  | 0, _ => .exhausted
  | n + 1, s => Exec.execStep limit (Expr.eval limit n) (Stmt.exec limit n) n s

end

/-- Execute a program on a level of its own. At its end, also after a fault, what it has written is
flushed; of two faults the first is reported. -/
def Machine.run (limit steps : Nat) (program : Block) (m : Machine) : Outcome Unit :=
  match Exec.block (Stmt.exec limit steps) program m with
  | .done _ m => Exec.flush m
  | .fault f m => .fault f m
  | .exhausted => .exhausted

/-- How deeply calls may be nested unless something else is said. -/
def defaultLimit : Nat :=
  1000

end Offside
