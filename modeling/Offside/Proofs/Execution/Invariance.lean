import Offside.Proofs.Execution.Closure

/-!
Execution keeps whatever the operations of a store keep, however it ends.
-/

namespace Offside

namespace Exec

/-- If the store has the property, then it still has it when the computation ends. -/
def Maintains (I : Store → Prop) {α : Type} (x : Exec α) : Prop :=
  ∀ m, I m.store → x.Ends m (fun _ m' => I m'.store) fun _ m' => I m'.store

namespace Maintains

variable {I : Store → Prop} {α β : Type} {x : Exec α}

theorem bind {y : α → Exec β} (hx : x.Maintains I) (hy : ∀ a, (y a).Maintains I) :
    (x >>= y).Maintains I :=
  fun m hm => .bind ((hx m hm).mono (fun a m' hm' => hy a m' hm') fun _ _ hm' => hm')

theorem dropLevelAfter (hI : Store.Invariant I) (hx : x.Maintains I) :
    (Exec.dropLevelAfter x).Maintains I :=
  fun m hm => .dropLevelAfter
    ((hx m hm).mono (fun _ _ hm' => hI.deleteLevel hm') fun _ _ hm' => hI.deleteLevel hm')

theorem onLevel (hI : Store.Invariant I) (hx : x.Maintains I) : (Exec.onLevel x).Maintains I :=
  fun m hm => hx.dropLevelAfter hI { m with store := m.store.newLevel } (hI.pushLevel hm _)

theorem inFrame (hI : Store.Invariant I) (hx : x.Maintains I) (scope : Scope) :
    (Exec.inFrame scope x).Maintains I :=
  fun m hm => .inFrame scope <|
    (hx { m with store := m.store.newFrame scope, depth := m.depth + 1 } (hI.pushLevel hm _)).mono
      (fun _ _ hm' => hI.deleteLevel hm') fun _ _ hm' => hI.deleteLevel hm'

theorem register (hI : Store.Invariant I) (name : String) {entry : Entry} (he : entry.Filled) :
    (update (·.declare name entry)).Maintains I :=
  fun _ hm => .update (.declare name entry) (fun _ hs => hI.register hm he hs) fun _ _ => hm

theorem closed (hI : Store.Invariant I) : Closed (fun {α} => Maintains I (α := α)) where
  pure _ _ hm := .pure hm
  fail _ _ hm := .fail hm
  bind hx hy := hx.bind hy
  lookup _ _ hm := .lookup (fun _ _ => hm) fun _ _ => hm
  store _ _ _ hm := .update (.put _ _) (fun _ hs => hI.store hm hs) fun _ _ => hm
  depth _ hm := .depth hm
  readWord _ hm := .readWord (fun _ _ => hm) fun _ _ => hm

theorem respected (hI : Store.Invariant I) :
    Respected (fun {α} (x _ : Exec α) => x.Maintains I) where
  pure a := (closed hI).pure a
  fail cause := (closed hI).fail cause
  bind hx hy := hx.bind hy
  onLevel hx := hx.onLevel hI
  resolve _ := (closed hI).lookup _
  register name _ he := register hI name he
  setLocation _ _ hm := .setLocation hm
  write _ _ hm := .write (fun _ => hm) fun _ => hm

variable {eval : Expr → Exec Evaluated} {exec : Stmt → Exec Signal}

theorem block (hI : Store.Invariant I) (hs : ∀ stmt, (exec stmt).Maintains I) (stmts : Block) :
    (Exec.block exec stmts).Maintains I :=
  @Congruent.block _ (respected hI).toCongruent exec exec hs stmts

theorem compared (hI : Store.Invariant I) (he : ∀ e, (eval e).Maintains I)
    (hs : ∀ stmt, (exec stmt).Maintains I) (limit n : Nat) :
    Compared (fun {α} (x _ : Exec α) => x.Maintains I) limit limit n n eval eval exec exec where
  expr := he
  stmt := hs
  value := (closed hI).evalValue he
  index := (closed hI).index he
  assign := (closed hI).assign he
  readInto := (closed hI).readInto he
  call := (closed hI).call he fun scope name f values =>
    (@Congruent.body _ (respected hI).toCongruent exec exec hs name f values).inFrame hI scope
  repeatWhile loc c c' b b' hc hb :=
    @Respected.repeatWhile _ (respected hI) loc c c' b b' 0 (fun _ _ => .exhausted) hc hb n

end Maintains

end Exec

theorem eval_exec_maintain {I : Store → Prop} (hI : Store.Invariant I) (limit n : Nat) :
    (∀ e, (Expr.eval limit n e).Maintains I) ∧ ∀ stmt, (Stmt.exec limit n stmt).Maintains I := by
  induction n with
  | zero => exact ⟨fun _ _ _ => .exhausted, fun _ _ _ => .exhausted⟩
  | succ n ih =>
    have hc := Exec.Maintains.compared hI ih.1 ih.2 limit n
    exact ⟨(Exec.Maintains.respected hI).evalStep hc, (Exec.Maintains.respected hI).execStep hc⟩

end Offside
