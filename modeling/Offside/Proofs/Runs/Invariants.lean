import Offside.Proofs.Execution.Invariance
import Offside.Proofs.Execution.Writing
import Offside.Proofs.Runs.Simulation
import Offside.Proofs.Scope.Sight

/-!
The invariants of stores hold wherever a run comes to, checked or not. So at all times, every
variable has a value, and every slot that an expression comes to can be read.
-/

namespace Offside

variable {I : Store → Prop} {limit steps : Nat} {program : Block} {m₀ : Machine} {a : Moment}
  {s : Store} {o : Origins}

theorem Store.Invariant.along (hI : Store.Invariant I) (limit : Nat) :
    Along limit fun m m' => I m.store → I m'.store where
  refl _ h := h
  trans h h' hm := h' (h hm)
  located _ _ h := h
  eval {n _ _ _ _} hd h := ((eval_exec_maintain hI limit n).1 _ _ h).of_done hd
  exec {n _ _ _} hd h := ((eval_exec_maintain hI limit n).2 _ _ h).of_done hd
  block {n _ _ _} hd h :=
    (Exec.Maintains.block hI (eval_exec_maintain hI limit n).2 _ _ h).of_done hd
  item {n name ty v stmts m _} hd h := by
    have hblock := Exec.Maintains.block hI (eval_exec_maintain hI limit n).2 stmts
    have hbind := Exec.Maintains.register hI name (.intro ty v)
    exact ((hbind.bind fun _ => hblock).onLevel hI m h).of_done hd
  newLevel _ h := hI.pushLevel h _
  register hr h := hI.register h (.intro _ _) hr
  frame {n _ _ _ _ _ _ _} _ hargs _ h := by
    have heval := (eval_exec_maintain hI limit n).1
    exact hI.pushLevel (((Exec.Maintains.closed hI).evalAll heval _ _ h).of_done hargs) _

theorem Visited.maintains (h : Visited limit steps program m₀ a) (hI : Store.Invariant I)
    (hm : I m₀.store) : I a.machine.store :=
  (hI.along limit).visited h hm

theorem Reached.maintains (h : Reached limit steps program m₀ s o) (hI : Store.Invariant I)
    (hm : I m₀.store) : I s := by
  have he := fun n => (eval_exec_maintain hI limit n).1
  have hs := fun n => (eval_exec_maintain hI limit n).2
  have hblock := fun n => Exec.Maintains.block hI (hs n)
  cases h with
  | moment h => exact h.maintains hI hm
  | exprDone h hd => exact (he _ _ _ (h.maintains hI hm)).of_done hd
  | exprFault h hd => exact (he _ _ _ (h.maintains hI hm)).of_fault hd
  | stmtDone h hd => exact (hs _ _ _ (h.maintains hI hm)).of_done hd
  | stmtFault h hd => exact (hs _ _ _ (h.maintains hI hm)).of_fault hd
  | blockDone h hd => exact (hblock _ _ _ (h.maintains hI hm)).of_done hd
  | blockFault h hd => exact (hblock _ _ _ (h.maintains hI hm)).of_fault hd

/-- Nothing is bound between runs. -/
theorem Machine.Idle.filled (hm : m₀.Idle) : m₀.store.Filled := by
  intro i level hl b hb
  rw [hm.bindings hl] at hb
  cases hb

/-- Wherever a run has come to, every variable has a value. -/
theorem Reached.filled (h : Reached limit steps program m₀ s o) (hm : m₀.Idle) : s.Filled :=
  h.maintains Store.Filled.invariant hm.filled

/-- A variable that is found has a value. -/
theorem Store.Filled.load_resolve (hs : s.Filled) {name : String} {slot : Slot}
    (h : s.resolve name = .ok slot) : ∃ value, s.load slot = .ok value := by
  have hpath : slot.path = [] := by
    unfold resolve at h
    split at h <;> cases h
    rfl
  obtain ⟨b, v, hf, hv⟩ := (Store.shows_of_resolve h).find?
  obtain ⟨level, hl, hb⟩ := Store.find?_some hf
  obtain ⟨value, hvalue⟩ : (Entry.variable v).Filled :=
    hv ▸ hs _ level hl b (List.mem_of_find?_eq_some hb)
  have hat : s.variableAt slot = .ok ⟨v.ty, some value⟩ := by
    rw [Store.variableAt_eq hl hb hv, ← hvalue]
  exact ⟨value, Store.load_iff.mpr ⟨v.ty, value, hat, by rw [hpath]; rfl⟩⟩

namespace Exec

variable {eval : Expr → Exec Evaluated} {exec : Stmt → Exec Signal} {m : Machine}

theorem element_loads (container : Evaluated) (i : Float) (m : Machine) :
    (element container i).Ends m (fun ev m' => ev.Loads m'.store) fun _ _ => True := by
  rw [element_eq]
  refine .bind (.intro (fun v m' hv => ?_) fun _ _ _ => trivial)
  refine .ofExcept (fun ev hev slot hs => ?_) fun _ _ => trivial
  subst hs
  obtain ⟨place, p, element, items, item, rfl, rfl, rfl, hitem⟩ := Evaluated.item_slot hev
  obtain ⟨hload, rfl⟩ := lookup_done (f := (·.load place)) hv
  exact ⟨item, Store.load_index hload hitem⟩

/-- What has been written can be read. -/
theorem assign_loads (lhs : Expr) (base : Option Operation) (rhs : Expr) :
    (assign eval lhs base rhs).Ends m (fun ev m' => ev.Loads m'.store) fun _ _ => True := by
  refine .after fun ev _ => .after fun target _ => .after fun v _ => ?_
  have stored (w : Value) (m : Machine) :
      (do update (·.put target w); Pure.pure (Evaluated.slot target)).Ends m
        (fun ev m' => ev.Loads m'.store) fun _ _ => True := by
    refine .bind (.update (.put target w) (fun s hs => .pure fun slot h => ?_) fun _ _ => trivial)
    cases h
    obtain ⟨_, _, -, -, hw⟩ := Store.store_writes hs
    exact ⟨_, by simpa using hw.inside []⟩
  cases base with
  | none => exact .after stored
  | some op => exact .after fun old _ => .after stored

theorem evalStep_loads (hm : m.store.Filled) (e : Expr) :
    (evalStep limit eval exec e).Ends m (fun ev m' => ev.Loads m'.store) fun _ _ => True := by
  have value {m : Machine} (v : Value) : (Pure.pure (.value v) : Exec Evaluated).Ends m
      (fun ev m' => ev.Loads m'.store) fun _ _ => True := .pure (Evaluated.loads_value _ _)
  match e with
  | .boolean _ | .number _ | .string _ => exact value _
  | .list _ => exact .after fun _ _ => value _
  | .identifier name =>
    refine .bind (.lookup (fun slot hs => .pure fun slot' h => ?_) fun _ _ => trivial)
    cases h
    exact hm.load_resolve hs
  | .unary _ _ => exact .after fun _ _ => .after fun _ _ => value _
  | .binary lhs (.assign base) rhs => exact assign_loads lhs base rhs
  | .binary lhs .index rhs =>
    refine .after fun container _ => .after fun v m => ?_
    split
    · exact element_loads container _ m
    · exact .fail trivial
  | .binary _ (.operation _) _ =>
    exact .after fun _ _ => .after fun _ _ => .after fun _ _ => value _
  | .call _ _ =>
    refine .after fun returned m => ?_
    cases returned with
    | some v => exact value v
    | none => exact .fail trivial

end Exec

/-- Whatever an expression comes to can be read. -/
theorem Expr.eval_loads {m : Machine} (hm : m.store.Filled) (limit n : Nat) (e : Expr) :
    (e.eval limit n).Ends m (fun ev m' => ev.Loads m'.store) fun _ _ => True := by
  cases n with
  | zero => exact .exhausted
  | succ n => exact Exec.evalStep_loads hm e

end Offside
