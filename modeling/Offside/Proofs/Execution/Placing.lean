import Offside.Proofs.Execution.Closure
import Offside.Proofs.Scope.Operations

/-!
Which statement a fault belongs to. The location of the statement being executed is one field of the
machine: a call puts it back, a loop sets it again each time, and a block leaves behind whatever it
was last. Still it is right wherever a fault can be raised. What can go wrong comes before the first
block of a statement, or after a call.
-/

namespace Offside

namespace Exec

variable {α β : Type} {f : RuntimeFault} {x : Exec α} {loc : Location}

/-- The computation is back at the statement that it started in when it is done; and should it end
with the fault `f`, then `f` belongs to this statement. -/
def Placed (f : RuntimeFault) (x : Exec α) : Prop :=
  ∀ m, x.Ends m (fun _ m' => m'.location = m.location) fun g _ => g = f → f.location = m.location

/-- Should the computation end with the fault `f`, then `f` belongs to the statement that the
computation started in. When it is done, it may be anywhere. -/
def Owns (f : RuntimeFault) (x : Exec α) : Prop :=
  ∀ m, x.Ends m (fun _ _ => True) fun g _ => g = f → f.location = m.location

/-- The computation does not end with the fault `f`. -/
def Spares (f : RuntimeFault) (x : Exec α) : Prop :=
  ∀ m, x.Ends m (fun _ _ => True) fun g _ => g ≠ f

namespace Placed

theorem owns (h : x.Placed f) : x.Owns f :=
  fun m => (h m).mono (fun _ _ _ => trivial) fun _ _ hg => hg

theorem bind {y : α → Exec β} (hx : x.Placed f) (hy : ∀ a, (y a).Placed f) :
    (x >>= y).Placed f := by
  intro m
  refine .bind <| (hx m).mono (fun a m' hm => ?_) fun _ _ hg => hg
  rw [← hm]
  exact hy a m'

theorem pure (a : α) : (Pure.pure a : Exec α).Placed f :=
  fun _ => .pure rfl

/-- A fault is given the location that the machine is at. -/
theorem fail (cause : RuntimeError) : (Exec.fail cause : Exec α).Placed f :=
  fun _ => .fail fun h => h ▸ rfl

theorem lookup (find : Store → Except StoreError α) : (Exec.lookup find).Placed f :=
  fun _ => .lookup (fun _ _ => rfl) fun _ _ h => h ▸ rfl

theorem update (change : Store → Except StoreError Unit × Store) :
    (Exec.update change).Placed f :=
  fun _ => .update_any _ (fun _ => rfl) fun _ _ h => h ▸ rfl

theorem depth : Exec.depth.Placed f :=
  fun _ => .depth rfl

theorem readWord : Exec.readWord.Placed f :=
  fun _ => .readWord (fun _ _ => rfl) fun _ _ h => h ▸ rfl

theorem write (text : String) : (Exec.write text).Placed f :=
  fun _ => .write (fun _ => rfl) fun _ h => h ▸ rfl

/-- An expression is evaluated within one statement, if the calls in it are. -/
theorem closed : Closed (Placed f) :=
  ⟨pure, fail, bind, lookup, fun _ _ => update _, depth, readWord⟩

end Placed

namespace Spares

theorem owns (h : x.Spares f) : x.Owns f :=
  fun m => (h m).mono (fun _ _ h => h) fun _ _ hg he => absurd he hg

theorem bind {y : α → Exec β} (hx : x.Spares f) (hy : ∀ a, (y a).Spares f) : (x >>= y).Spares f :=
  fun m => .bind <| (hx m).mono (fun a m' _ => hy a m') fun _ _ hg => hg

theorem pure (a : α) : (Pure.pure a : Exec α).Spares f :=
  fun _ => .pure trivial

theorem onLevel (h : x.Spares f) : (Exec.onLevel x).Spares f :=
  fun m => .onLevel (h { m with store := m.store.newLevel })

end Spares

namespace Owns

/-- The statement is the same as long as the location is. -/
theorem after {y : α → Exec β} (hx : x.Placed f) (hy : ∀ a, (y a).Owns f) : (x >>= y).Owns f := by
  intro m
  refine .bind <| (hx m).mono (fun a m' hm => ?_) fun _ _ hg => hg
  rw [← hm]
  exact hy a m'

/-- After a call the location is what it was before. -/
theorem inFrame (h : x.Owns f) (scope : Scope) : (Exec.inFrame scope x).Placed f := by
  intro m
  refine .inFrame scope <| (h _).mono (fun _ _ _ => rfl) fun _ _ hg => hg

end Owns

section Steps

variable {limit : Nat} {eval : Expr → Exec Evaluated} {exec : Stmt → Exec Signal}

theorem placed_bindArgs (function : String) (params : List Param) (values : List Value) :
    (bindArgs function params values).Placed f := by
  induction params generalizing values with
  | nil => exact .pure _
  | cons p params ih =>
    cases values with
    | nil => exact .pure _
    | cons v values =>
      unfold bindArgs
      split
      · exact .bind (.update _) fun _ => ih values
      · exact .fail _

section Statements

variable (hs : ∀ stmt, (exec stmt).Spares f)
include hs

theorem spares_sequence (stmts : List Stmt) : (sequence exec stmts).Spares f := by
  induction stmts with
  | nil => exact .pure _
  | cons stmt stmts ih =>
    refine .bind (hs stmt) fun signal => ?_
    cases signal with
    | next => exact ih
    | «return» v => exact .pure _

theorem spares_block (stmts : Block) : (block exec stmts).Spares f :=
  (spares_sequence hs stmts).onLevel

/-- What can go wrong when the arguments are bound is a fault of the statement with the call. -/
theorem owns_body (name : String) (fn : Function) (values : List Value) :
    (body exec name fn values).Owns f := by
  refine .after (placed_bindArgs _ _ _) fun _ => ?_
  refine (Spares.bind (spares_block hs fn.body) fun signal => ?_).owns
  cases signal with
  | next => exact .pure _
  | «return» v => exact .pure _

/-- The variable of a loop is the first name on its level, so nothing goes wrong between one
repetition and the next, where the location is no longer that of the loop. -/
theorem spares_forEach (name : String) (element : Ty) (stmts : Block) (items : List Value) :
    (forEach name element (block exec stmts) items).Spares f := by
  induction items with
  | nil => exact .pure _
  | cons item items ih =>
    refine .bind (fun m => .onLevel ?_) fun signal => ?_
    · have hd : 0 < m.store.newLevel.depth := by simp
      have hn : name ∉ m.store.newLevel.locals := by simp [Store.locals_newLevel]
      refine .bind (.update (.declare _ _) (fun s hreg => spares_block hs stmts _) fun e he => ?_)
      rw [Store.register_eq hd, if_neg hn] at he
      cases he
    · cases signal with
      | next => exact ih
      | «return» v => exact .pure _

end Statements

/-- After a call the location is what it was before, whatever the function did. -/
theorem placed_frame (hs : ∀ stmt, (exec stmt).Spares f) (scope : Scope) (name : String)
    (fn : Function) (values : List Value) : (inFrame scope (body exec name fn values)).Placed f :=
  (owns_body hs name fn values).inFrame scope

section

variable (he : ∀ e, (eval e).Placed f) (hs : ∀ stmt, (exec stmt).Spares f)
include he hs

/-- The condition of a loop belongs to the loop each time, wherever its body ended. -/
theorem repeatWhile_ends (e : Expr) (stmts : Block) (n : Nat) (m : Machine) :
    (repeatWhile loc (evalCondition eval e) (block exec stmts) n).Ends m (fun _ _ => True)
      fun g _ => g = f → f.location = some loc := by
  induction n generalizing m with
  | zero => exact .exhausted
  | succ n ih =>
    refine .bind (.setLocation (.bind ?_))
    refine (Placed.closed.evalCondition he e _).mono (fun again m' _ => ?_) fun _ _ hg => hg
    cases again with
    | false => exact .pure trivial
    | true =>
      refine .bind <| (spares_block hs stmts m').mono (fun signal m'' _ => ?_)
        fun _ _ hg h => absurd h hg
      cases signal with
      | next => exact ih m''
      | «return» v => exact .pure trivial

/-- A fault that comes from no other statement belongs to the one that is executed. -/
theorem execStep_ends (n : Nat) (stmt : Stmt) (m : Machine) :
    (execStep limit eval exec n stmt).Ends m (fun _ _ => True)
      fun g _ => g = f → f.location = some stmt.loc := by
  refine .bind (.setLocation ?_)
  match stmt with
  | .declare _ name ty initializer =>
    refine (Placed.bind (Placed.closed.evalOptional he initializer) fun value => ?_).owns _
    refine .bind (Placed.closed.initialValue name ty value) fun _ => ?_
    exact .bind (.update _) fun _ => .pure _
  | .define _ name params returns body =>
    exact (Placed.bind (.update _) fun _ => .pure _).owns _
  | .expr _ e =>
    cases e with
    | call name args =>
      have hcall : (call limit eval exec name args).Placed f :=
        Placed.closed.call he (placed_frame hs) name args
      exact (Placed.bind hcall fun _ => .pure _).owns _
    | _ => exact (Placed.bind (he _) fun _ => .pure _).owns _
  | .return _ value =>
    exact (Placed.bind (Placed.closed.evalOptional he value) fun _ => .pure _).owns _
  | .print _ e =>
    refine (Placed.bind (Placed.closed.evalValue he e) fun _ => ?_).owns _
    exact .bind (.write _) fun _ => .pure _
  | .read _ target => exact (Placed.bind (Placed.closed.readInto he target) fun _ => .pure _).owns _
  | .cond _ condition thenBlock elseBlock =>
    refine Owns.after (Placed.closed.evalCondition he condition) (fun b => ?_) _
    split
    · exact (spares_block hs thenBlock).owns
    · split
      · exact (spares_block hs _).owns
      · exact (Spares.pure _).owns
  | .while loc condition body => exact repeatWhile_ends he hs condition body n _
  | .for _ name range body =>
    refine Owns.after (Placed.closed.evalValue he range) (fun v => ?_) _
    split
    · exact (spares_forEach hs name _ body _).owns
    · exact (Placed.fail _).owns

end

end Steps

end Exec

end Offside
