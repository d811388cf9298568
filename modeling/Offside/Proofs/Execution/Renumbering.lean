import Offside.Proofs.Execution.Comparison
import Offside.Proofs.Scope.Renumbering

/-!
Programs whose lines have other numbers are executed as before, and a fault has the new number of
its line.
-/

namespace Offside

def RuntimeFault.renumber (g : Nat → Nat) (fault : RuntimeFault) : RuntimeFault :=
  ⟨fault.cause, fault.location.map (Location.renumber g)⟩

def Machine.renumber (g : Nat → Nat) (m : Machine) : Machine :=
  { m with store := m.store.renumber g, location := m.location.map (Location.renumber g) }

namespace Machine

variable (g : Nat → Nat) (m : Machine)

theorem store_renumber : (m.renumber g).store = m.store.renumber g :=
  rfl

theorem input_renumber : (m.renumber g).input = m.input :=
  rfl

theorem output_renumber : (m.renumber g).output = m.output :=
  rfl

end Machine

def Outcome.renumber {α : Type} (g : Nat → Nat) : Outcome α → Outcome α
  | .done a m => .done a (m.renumber g)
  | .fault f m => .fault (f.renumber g) (m.renumber g)
  | .exhausted => .exhausted

namespace Exec

/-- The second computation does the same on a machine in which the lines have their new numbers. -/
def Renumbers (g : Nat → Nat) {α : Type} (x x' : Exec α) : Prop :=
  ∀ m, x' (m.renumber g) = (x m).renumber g

namespace Renumbers

variable {g : Nat → Nat} {α β : Type} {x x' : Exec α}

theorem bind {y y' : α → Exec β} (hx : x.Renumbers g x') (hy : ∀ a, (y a).Renumbers g (y' a)) :
    (x >>= y).Renumbers g (x' >>= y') := by
  intro m
  change Exec.bind x' y' _ = (Exec.bind x y m).renumber g
  unfold Exec.bind
  rw [hx m]
  cases x m with
  | done a m₁ => exact hy a m₁
  | fault f m₁ => rfl
  | exhausted => rfl

/-! Levels and frames. -/

theorem dropLevelAfter (hx : x.Renumbers g x') :
    (Exec.dropLevelAfter x).Renumbers g (Exec.dropLevelAfter x') := by
  intro m
  unfold Exec.dropLevelAfter
  rw [hx m]
  cases x m with
  | done a m₁ =>
    dsimp only [Outcome.renumber]
    rw [Machine.store_renumber, Store.deleteLevel_renumber]
    rfl
  | fault f m₁ =>
    dsimp only [Outcome.renumber]
    rw [Machine.store_renumber, Store.deleteLevel_renumber]
    rfl
  | exhausted => rfl

theorem onLevel (hx : x.Renumbers g x') : (Exec.onLevel x).Renumbers g (Exec.onLevel x') := by
  intro m
  unfold Exec.onLevel
  rw [Machine.store_renumber, Store.newLevel_renumber]
  exact hx.dropLevelAfter { m with store := m.store.newLevel }

theorem inFrame (hx : x.Renumbers g x') (scope : Scope) :
    (Exec.inFrame scope x).Renumbers g (Exec.inFrame scope x') := by
  intro m
  let opened : Machine := { m with store := m.store.newFrame scope, depth := m.depth + 1 }
  have hbody : Exec.dropLevelAfter x' { m.renumber g with
      store := (m.store.newFrame scope).renumber g, depth := (m.renumber g).depth + 1 } =
      (Exec.dropLevelAfter x opened).renumber g :=
    hx.dropLevelAfter opened
  unfold Exec.inFrame
  dsimp only
  rw [Machine.store_renumber, Store.newFrame_renumber, hbody]
  cases Exec.dropLevelAfter x opened <;> rfl

/-! Stores. -/

theorem lookup {f : Store → Except StoreError α} (h : ∀ s : Store, f (s.renumber g) = f s) :
    (Exec.lookup f).Renumbers g (Exec.lookup f) := by
  intro m
  unfold Exec.lookup
  rw [Machine.store_renumber, h]
  cases f m.store <;> rfl

theorem update {f f' : Store → Except StoreError Unit × Store}
    {change change' : Store → Except StoreError Store} (hf : Store.Attempts f change)
    (hf' : Store.Attempts f' change')
    (h : ∀ s : Store, change' (s.renumber g) = (change s).map (Store.renumber g)) :
    (Exec.update f).Renumbers g (Exec.update f') := by
  intro m
  rw [update_eq hf, update_eq hf', Machine.store_renumber, h]
  cases change m.store <;> rfl

theorem load (slot : Slot) : (Exec.load slot).Renumbers g (Exec.load slot) :=
  lookup fun s => s.load_renumber g slot

theorem store (slot : Slot) (v : Value) :
    (Exec.update (·.put slot v)).Renumbers g (Exec.update (·.put slot v)) :=
  update (.put _ _) (.put _ _) fun s => s.store_renumber g slot v

theorem register (name : String) (entry : Entry) :
    (Exec.update (·.declare name entry)).Renumbers g
      (Exec.update (·.declare name (entry.renumber g))) :=
  update (.declare _ _) (.declare _ _) fun s => s.register_renumber g name entry

/-- The function that is found has the new lines in its body. -/
theorem bindFunction (name : String) {y y' : Function × Scope → Exec β}
    (hy : ∀ f scope, (y (f, scope)).Renumbers g (y' (f.renumber g, scope))) :
    (Exec.lookup (·.lookupFunction name) >>= y).Renumbers g
      (Exec.lookup (·.lookupFunction name) >>= y') := by
  intro m
  change Exec.bind _ y' (m.renumber g) = (Exec.bind _ y m).renumber g
  unfold Exec.bind Exec.lookup
  rw [Machine.store_renumber]
  dsimp only
  rw [Store.lookupFunction_renumber]
  cases m.store.lookupFunction name with
  | ok found => exact hy found.1 found.2 m
  | error e => rfl

theorem setLocation (loc : Location) :
    (Exec.setLocation loc).Renumbers g (Exec.setLocation (loc.renumber g)) :=
  fun _ => rfl

theorem readWord : Exec.readWord.Renumbers g Exec.readWord := by
  intro m
  unfold Exec.readWord
  rw [Machine.input_renumber]
  obtain ⟨word | e, input⟩ := m.input.word <;> rfl

theorem write (text : String) : (Exec.write text).Renumbers g (Exec.write text) := by
  intro m
  unfold Exec.write
  rw [Machine.output_renumber]
  obtain ⟨_ | _, output⟩ := m.output.write text <;> rfl

theorem flush : Exec.flush.Renumbers g Exec.flush := by
  intro m
  unfold Exec.flush
  rw [Machine.output_renumber]
  cases m.output.flushes <;> rfl

theorem congruent : Congruent (fun {α} => Renumbers g (α := α)) where
  pure _ _ := rfl
  fail _ _ := rfl
  bind hx hy := hx.bind hy
  onLevel hx := hx.onLevel
  resolve name := lookup fun s => s.resolve_renumber g name
  bindVariable name ty value := register name (.variable ⟨ty, some value⟩)

/-! Blocks. -/

variable {eval : Expr → Exec Evaluated} {exec : Stmt → Exec Signal}

theorem sequence_renumber (stmts : Block) :
    Exec.sequence exec (Block.renumber g stmts) =
      Exec.sequence (fun stmt => exec (stmt.renumber g)) stmts := by
  induction stmts with
  | nil => rw [Block.renumber]; rfl
  | cons stmt stmts ih =>
    rw [Block.renumber]
    unfold Exec.sequence
    rw [ih]

variable (he : ∀ e, (eval e).Renumbers g (eval e))
  (hs : ∀ stmt, (exec stmt).Renumbers g (exec (stmt.renumber g)))

include he hs

omit he in
theorem block (stmts : Block) :
    (Exec.block exec stmts).Renumbers g (Exec.block exec (Block.renumber g stmts)) := by
  unfold Exec.block
  rw [sequence_renumber]
  exact congruent.block hs stmts

omit he in
theorem body (name : String) (f : Function) (values : List Value) :
    (Exec.body exec name f values).Renumbers g (Exec.body exec name (f.renumber g) values) := by
  refine bind (congruent.bindArgs name f.params values) fun _ => ?_
  refine bind (block hs f.body) fun signal => ?_
  cases signal with
  | next => exact congruent.pure none
  | «return» v => exact congruent.pure v

omit hs in
theorem value (e : Expr) : (Exec.evalValue eval e).Renumbers g (Exec.evalValue eval e) :=
  congruent.evalValue load he e

/-- The body that is executed has the new lines; what it is called with and returns is the same. -/
theorem call (limit : Nat) (name : String) (args : List Expr) :
    (Exec.call limit eval exec name args).Renumbers g (Exec.call limit eval exec name args) := by
  refine bindFunction name fun f scope => ?_
  dsimp only
  by_cases hl : args.length = f.params.length
  · have hl' : args.length = (f.renumber g).params.length := hl
    rw [if_pos hl, if_pos hl']
    refine bind (congruent.evalAll (value he) args) fun values => ?_
    refine bind (fun _ => rfl) fun depth => ?_
    split
    · exact congruent.fail _
    · refine bind ((body hs name f values).inFrame scope) fun returned => ?_
      exact congruent.result f.returns returned
  · have hl' : ¬ args.length = (f.renumber g).params.length := hl
    rw [if_neg hl, if_neg hl']
    exact congruent.fail _

theorem evalStep (limit : Nat) (e : Expr) :
    (Exec.evalStep limit eval exec e).Renumbers g (Exec.evalStep limit eval exec e) :=
  congruent.evalStep (value he) (congruent.index load he) (congruent.assign load store he)
    (call he hs limit) e

theorem execStep (limit n : Nat) (stmt : Stmt) :
    (Exec.execStep limit eval exec n stmt).Renumbers g
      (Exec.execStep limit eval exec n (stmt.renumber g)) := by
  have hloc := setLocation (g := g) stmt.loc
  rw [← Stmt.loc_renumber] at hloc
  refine bind hloc fun _ => ?_
  match stmt with
  | .declare _ name ty initializer =>
    rw [Stmt.renumber]
    refine bind (congruent.evalOptional (value he) initializer) fun v => ?_
    refine bind (congruent.initialValue name ty v) fun first => ?_
    obtain ⟨ty, v⟩ := first
    exact bind (register name (.variable ⟨ty, some v⟩)) fun _ => congruent.pure _
  | .define _ name params returns body =>
    rw [Stmt.renumber]
    exact bind (register name (.function ⟨params, returns, body⟩)) fun _ => congruent.pure _
  | .expr _ e =>
    rw [Stmt.renumber]
    cases e with
    | call name args => exact bind (call he hs limit name args) fun _ => congruent.pure _
    | _ => exact bind (he _) fun _ => congruent.pure _
  | .return _ v =>
    rw [Stmt.renumber]
    exact bind (congruent.evalOptional (value he) v) fun _ => congruent.pure _
  | .print _ e =>
    rw [Stmt.renumber]
    exact bind (value he e) fun _ => bind (write _) fun _ => congruent.pure _
  | .read _ target =>
    rw [Stmt.renumber]
    exact bind (congruent.readInto load store readWord he target) fun _ => congruent.pure _
  | .cond _ condition thenBlock elseBlock =>
    rw [Stmt.renumber_cond]
    refine bind (congruent.evalCondition (value he) condition) fun b => ?_
    split
    · exact block hs thenBlock
    · cases elseBlock with
      | none => exact congruent.pure _
      | some elseBlock => exact block hs elseBlock
  | .while loc condition body =>
    rw [Stmt.renumber]
    have hstop : exhausted.Renumbers g (Exec.repeatWhile (loc.renumber g)
        (Exec.evalCondition eval condition) (Exec.block exec (Block.renumber g body)) 0) :=
      fun _ => rfl
    exact congruent.repeatWhile (setLocation loc) hstop
      (congruent.evalCondition (value he) condition) (block hs body) n
  | .for _ name range body =>
    rw [Stmt.renumber]
    refine bind (value he range) fun v => ?_
    split
    · exact congruent.forEach name _ (block hs body) _
    · exact congruent.fail _

end Renumbers

end Exec

theorem eval_exec_renumber (g : Nat → Nat) (limit n : Nat) :
    (∀ e, (Expr.eval limit n e).Renumbers g (Expr.eval limit n e)) ∧
      ∀ stmt, (Stmt.exec limit n stmt).Renumbers g (Stmt.exec limit n (stmt.renumber g)) := by
  induction n with
  | zero => exact ⟨fun _ _ => rfl, fun _ _ => rfl⟩
  | succ n ih => exact ⟨.evalStep ih.1 ih.2 limit, .execStep ih.1 ih.2 limit n⟩

theorem Machine.run_renumber (g : Nat → Nat) (limit steps : Nat) (program : Block) :
    Exec.Renumbers g (Machine.run limit steps program)
      (Machine.run limit steps (Block.renumber g program)) := by
  rw [Machine.run_eq, Machine.run_eq]
  exact .bind (.block (eval_exec_renumber g limit steps).2 program) fun _ => .flush

end Offside
