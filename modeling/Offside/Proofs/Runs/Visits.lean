import Offside.Proofs.Runs.Positions

/-!
The moments of a run. Each call of the evaluator is one, and so is each step of what it does in
order: the statements of a block, the repetitions of a loop, the arguments and the parameters of a
call. From a moment the run enters others; the rules follow the definitions of execution one by
one. On the way the declarations of the names on all levels are noted, which execution itself
neither needs nor keeps.
-/

namespace Offside

/-- What is being done. `args`, `seq`, `bind` and `each` are about what is left to do; `item` is one
repetition of a loop over a range, on the level that was opened for it. -/
inductive Task where
  | expr (e : Expr)
  | args (es : List Expr)
  | call (name : String) (args : List Expr)
  | stmt (stmt : Stmt)
  | block (stmts : Block)
  | seq (stmts : List Stmt)
  | bind (f : Function) (i : Nat) (params : List Param) (values : List Value)
  | each (name : String) (element : Ty) (items : List Value) (body : Block)
  | item (name : String) (element : Ty) (item : Value) (body : Block)

/-- A moment of a run: what is done with how many steps, the statement that it is part of, and the
machine at the start. The position of a block is that of its first statement, and the position of
parameters that of the function. -/
structure Moment where
  steps : Nat
  task : Task
  position : Position
  machine : Machine
  origins : Origins

/-- The expression that a statement evaluates first. A call that is a statement needs no result. -/
def Stmt.operand? : Stmt → Option Expr
  | .declare _ _ _ initializer => initializer
  | .define .. | .expr _ (.call ..) => none
  | .return _ value => value
  | .expr _ e | .print _ e | .read _ e | .cond _ e _ _ | .while _ e _ | .for _ _ e _ => some e

/-- The machine with the location of a statement that is being executed. -/
def Machine.located (m : Machine) (stmt : Stmt) : Machine :=
  { m with location := some stmt.loc }

/-- What a run enters from a moment. -/
inductive Enters (limit : Nat) : Moment → Moment → Prop
  -- blocks and the statements in them
  | block : Enters limit ⟨n, .block stmts, p, m, o⟩
      ⟨n, .seq stmts, p, { m with store := m.store.newLevel }, o.newLevel⟩
  | head : Enters limit ⟨n, .seq (stmt :: stmts), p, m, o⟩ ⟨n, .stmt stmt, p, m, o⟩
  | tail (h : stmt.exec limit n m = .done .next m') :
      Enters limit ⟨n, .seq (stmt :: stmts), p, m, o⟩ ⟨n, .seq stmts, p.next, m', o.declare stmt p⟩
  -- the parts of a statement
  | operand (h : stmt.operand? = some e) :
      Enters limit ⟨n + 1, .stmt stmt, p, m, o⟩ ⟨n, .expr e, p, m.located stmt, o⟩
  | callStmt : Enters limit ⟨n + 1, .stmt (.expr loc (.call name args)), p, m, o⟩
      ⟨n, .call name args, p, m.located (.expr loc (.call name args)), o⟩
  | thenBlock (h : Exec.evalCondition (Expr.eval limit n) e
        (m.located (.cond loc e stmts elseBlock)) = .done true m') :
      Enters limit ⟨n + 1, .stmt (.cond loc e stmts elseBlock), p, m, o⟩
        ⟨n, .block stmts, p.inner false, m', o⟩
  | elseBlock (h : Exec.evalCondition (Expr.eval limit n) e
        (m.located (.cond loc e thenBlock (some stmts))) = .done false m') :
      Enters limit ⟨n + 1, .stmt (.cond loc e thenBlock (some stmts)), p, m, o⟩
        ⟨n, .block stmts, p.inner true, m', o⟩
  | whileBody (h : Exec.evalCondition (Expr.eval limit n) e
        (m.located (.while loc e stmts)) = .done true m') :
      Enters limit ⟨n + 1, .stmt (.while loc e stmts), p, m, o⟩
        ⟨n, .block stmts, p.inner false, m', o⟩
  | whileAgain (h : Exec.evalCondition (Expr.eval limit n) e
        (m.located (.while loc e stmts)) = .done true m')
      (h' : Exec.block (Stmt.exec limit n) stmts m' = .done .next m'') :
      Enters limit ⟨n + 1, .stmt (.while loc e stmts), p, m, o⟩
        ⟨n + 1, .stmt (.while loc e stmts), p, m'', o⟩
  -- loops over a range
  | forItems (h : Exec.evalValue (Expr.eval limit n) e (m.located (.for loc name e stmts)) =
        .done v m') (hv : v.elements? = some (element, items)) :
      Enters limit ⟨n + 1, .stmt (.for loc name e stmts), p, m, o⟩
        ⟨n, .each name element items stmts, p, m', o⟩
  | item : Enters limit ⟨n, .each name element (item :: items) stmts, p, m, o⟩
      ⟨n, .item name element item stmts, p, { m with store := m.store.newLevel }, o.newLevel⟩
  | nextItem (h : Exec.onLevel (do
        Exec.update (·.declare name (.variable ⟨element, some item⟩))
        Exec.block (Stmt.exec limit n) stmts) m = .done .next m') :
      Enters limit ⟨n, .each name element (item :: items) stmts, p, m, o⟩
        ⟨n, .each name element items stmts, p, m', o⟩
  | itemBody (h : m.store.register name (.variable ⟨element, some item⟩) = .ok s) :
      Enters limit ⟨n, .item name element item stmts, p, m, o⟩
        ⟨n, .block stmts, p.inner false, { m with store := s }, o.bind name ⟨p, none⟩⟩
  -- the parts of an expression
  | elements : Enters limit ⟨n + 1, .expr (.list es), p, m, o⟩ ⟨n, .args es, p, m, o⟩
  | unary : Enters limit ⟨n + 1, .expr (.unary op e), p, m, o⟩ ⟨n, .expr e, p, m, o⟩
  | left : Enters limit ⟨n + 1, .expr (.binary lhs op rhs), p, m, o⟩ ⟨n, .expr lhs, p, m, o⟩
  | right (h : Exec.evalValue (Expr.eval limit n) lhs m = .done v m') :
      Enters limit ⟨n + 1, .expr (.binary lhs (.operation op) rhs), p, m, o⟩
        ⟨n, .expr rhs, p, m', o⟩
  | indexRight (h : lhs.eval limit n m = .done ev m') :
      Enters limit ⟨n + 1, .expr (.binary lhs .index rhs), p, m, o⟩ ⟨n, .expr rhs, p, m', o⟩
  | assignRight (h : lhs.eval limit n m = .done (.slot slot) m') :
      Enters limit ⟨n + 1, .expr (.binary lhs (.assign base) rhs), p, m, o⟩
        ⟨n, .expr rhs, p, m', o⟩
  | call : Enters limit ⟨n + 1, .expr (.call name args), p, m, o⟩ ⟨n, .call name args, p, m, o⟩
  | arg : Enters limit ⟨n, .args (e :: es), p, m, o⟩ ⟨n, .expr e, p, m, o⟩
  | nextArg (h : Exec.evalValue (Expr.eval limit n) e m = .done v m') :
      Enters limit ⟨n, .args (e :: es), p, m, o⟩ ⟨n, .args es, p, m', o⟩
  -- calls; should nothing be noted of the function, then any position will do
  | args (h : m.store.lookupFunction name = .ok (f, scope))
      (hlen : args.length = f.params.length) :
      Enters limit ⟨n, .call name args, p, m, o⟩ ⟨n, .args args, p, m, o⟩
  | frame (h : m.store.lookupFunction name = .ok (f, scope))
      (hlen : args.length = f.params.length)
      (hargs : Exec.evalAll (Expr.eval limit n) args m = .done values m')
      (hdepth : m'.depth < limit) (ho : ∀ d, m.store.origin? o name = some d → d.position = q) :
      Enters limit ⟨n, .call name args, p, m, o⟩
        ⟨n, .bind f 0 f.params values, q,
          { m' with store := m'.store.newFrame scope, depth := m'.depth + 1 }, o.newLevel⟩
  | param (hv : v.coerce param.ty = some w)
      (h : m.store.register param.name (.variable ⟨param.ty, some w⟩) = .ok s) :
      Enters limit ⟨n, .bind f i (param :: params) (v :: values), p, m, o⟩
        ⟨n, .bind f (i + 1) params values, p, { m with store := s }, o.bind param.name ⟨p, some i⟩⟩
  | body (h : params = [] ∨ values = []) :
      Enters limit ⟨n, .bind f i params values, p, m, o⟩ ⟨n, .block f.body, p.inner false, m, o⟩

/-- There always is a position to enter a frame at. -/
theorem Store.exists_position (s : Store) (o : Origins) (name : String) :
    ∃ q, ∀ d, s.origin? o name = some d → d.position = q := by
  cases s.origin? o name with
  | none => exact ⟨⟨.program, 0⟩, nofun⟩
  | some d =>
    refine ⟨d.position, fun d' hd => ?_⟩
    cases hd
    rfl

/-- The moments of a run of a program, with this number of steps and from this machine. -/
inductive Visited (limit steps : Nat) (program : Block) (m : Machine) : Moment → Prop
  | start : Visited limit steps program m ⟨steps, .block program, ⟨.program, 0⟩, m, #[[]]⟩
  | enter (h : Visited limit steps program m a) (he : Enters limit a b) :
      Visited limit steps program m b

/-- A relation that holds between the machines of a moment and of those that are entered from it: it
goes along with all that is done in between, and with the levels and frames that are opened. -/
structure Along (limit : Nat) (R : Machine → Machine → Prop) : Prop where
  refl : ∀ m, R m m
  trans : ∀ {m m' m''}, R m m' → R m' m'' → R m m''
  located : ∀ m stmt, R m (m.located stmt)
  eval : ∀ {n e m ev m'}, Expr.eval limit n e m = .done ev m' → R m m'
  exec : ∀ {n stmt m m'}, Stmt.exec limit n stmt m = .done .next m' → R m m'
  block : ∀ {n stmts m m'}, Exec.block (Stmt.exec limit n) stmts m = .done .next m' → R m m'
  item : ∀ {n name ty v stmts m m'}, Exec.onLevel (do
    Exec.update (·.declare name (.variable ⟨ty, some v⟩))
    Exec.block (Stmt.exec limit n) stmts) m = .done .next m' → R m m'
  newLevel : ∀ m, R m { m with store := m.store.newLevel }
  register : ∀ {m name ty v s}, m.store.register name (.variable ⟨ty, some v⟩) = .ok s →
    R m { m with store := s }
  frame : ∀ {n name args f scope values m m'}, m.store.lookupFunction name = .ok (f, scope) →
    Exec.evalAll (Expr.eval limit n) args m = .done values m' → m'.depth < limit →
    R m { m' with store := m'.store.newFrame scope, depth := m'.depth + 1 }

namespace Along

variable {limit : Nat} {R : Machine → Machine → Prop} {a b : Moment}

theorem evalValue (hR : Along limit R) {n : Nat} {e : Expr} {v : Value} {m m' : Machine}
    (h : Exec.evalValue (Expr.eval limit n) e m = .done v m') : R m m' := by
  obtain ⟨ev, h⟩ := Exec.evalValue_done h
  exact hR.eval h

theorem evalCondition (hR : Along limit R) {n : Nat} {e : Expr} {again : Bool} {m m' : Machine}
    (h : Exec.evalCondition (Expr.eval limit n) e m = .done again m') : R m m' := by
  obtain ⟨v, h⟩ := Exec.evalCondition_done h
  exact hR.evalValue h

theorem enters (hR : Along limit R) (h : Enters limit a b) : R a.machine b.machine := by
  cases h with
  | head | left | elements | unary | call | arg | args | body => exact hR.refl _
  | operand | callStmt => exact hR.located _ _
  | block | item => exact hR.newLevel _
  | itemBody h | param _ h => exact hR.register h
  | tail h => exact hR.exec h
  | indexRight h | assignRight h => exact hR.eval h
  | right h | nextArg h => exact hR.evalValue h
  | thenBlock h | elseBlock h | whileBody h =>
    exact hR.trans (hR.located _ _) (hR.evalCondition h)
  | whileAgain h h' =>
    exact hR.trans (hR.located _ _) (hR.trans (hR.evalCondition h) (hR.block h'))
  | forItems h _ => exact hR.trans (hR.located _ _) (hR.evalValue h)
  | nextItem h => exact hR.item h
  | frame hf _ hargs hdepth _ => exact hR.frame hf hargs hdepth

theorem visited (hR : Along limit R) {steps : Nat} {program : Block} {m : Machine}
    (h : Visited limit steps program m a) : R m a.machine := by
  induction h with
  | start => exact hR.refl m
  | enter _ he ih => exact hR.trans ih (hR.enters he)

end Along

/-- The stores that a run goes through, with the declarations of the names on all levels: those at
its moments, and what is left when an expression, a statement or a block ends. -/
inductive Reached (limit steps : Nat) (program : Block) (m₀ : Machine) : Store → Origins → Prop
  | moment (h : Visited limit steps program m₀ a) :
      Reached limit steps program m₀ a.machine.store a.origins
  | exprDone (h : Visited limit steps program m₀ ⟨n, .expr e, p, m, o⟩)
      (he : e.eval limit n m = .done ev m') : Reached limit steps program m₀ m'.store o
  | exprFault (h : Visited limit steps program m₀ ⟨n, .expr e, p, m, o⟩)
      (he : e.eval limit n m = .fault f m') : Reached limit steps program m₀ m'.store o
  | stmtDone (h : Visited limit steps program m₀ ⟨n, .stmt stmt, p, m, o⟩)
      (hs : stmt.exec limit n m = .done signal m') :
      Reached limit steps program m₀ m'.store (o.declare stmt p)
  | stmtFault (h : Visited limit steps program m₀ ⟨n, .stmt stmt, p, m, o⟩)
      (hs : stmt.exec limit n m = .fault f m') : Reached limit steps program m₀ m'.store o
  | blockDone (h : Visited limit steps program m₀ ⟨n, .block stmts, p, m, o⟩)
      (hs : Exec.block (Stmt.exec limit n) stmts m = .done signal m') :
      Reached limit steps program m₀ m'.store o
  | blockFault (h : Visited limit steps program m₀ ⟨n, .block stmts, p, m, o⟩)
      (hs : Exec.block (Stmt.exec limit n) stmts m = .fault f m') :
      Reached limit steps program m₀ m'.store o

/-- A machine before, between and after runs. -/
inductive Machine.Idle : Machine → Prop
  | new (input : Input) (output : Output) : Idle (.new input output)
  | done (h : Idle m) (hr : m.run limit steps program = .done () m') : Idle m'
  | fault (h : Idle m) (hr : m.run limit steps program = .fault f m') : Idle m'

end Offside
