import Offside.Proofs.Execution.Closure

/-!
What never runs out of steps. A computation that is put together from others comes to an end when
they do; and the operations that neither evaluate an expression nor execute a statement always end.
-/

namespace Offside.Exec

variable {α β : Type} {x : Exec α} {m : Machine}

/-- From this machine, the computation does not run out of steps. -/
def Settles (x : Exec α) (m : Machine) : Prop :=
  x m ≠ .exhausted

namespace Settles

theorem pure (a : α) : (Pure.pure a : Exec α).Settles m :=
  nofun

theorem fail (cause : RuntimeError) : (Exec.fail cause : Exec α).Settles m :=
  nofun

theorem bind {y : α → Exec β} (hx : x.Settles m)
    (hy : ∀ a m', x m = .done a m' → (y a).Settles m') : (x >>= y).Settles m := by
  intro h
  change Exec.bind x y m = .exhausted at h
  unfold Exec.bind at h
  cases hxm : x m with
  | done a m' =>
    rw [hxm] at h
    exact hy a m' hxm h
  | fault f m' =>
    rw [hxm] at h
    cases h
  | exhausted => exact hx hxm

theorem ofExcept (r : Except RuntimeError α) : (Exec.ofExcept r).Settles m := by
  cases r <;> nofun

theorem lookup (f : Store → Except StoreError α) : (Exec.lookup f).Settles m := by
  unfold Settles Exec.lookup
  cases f m.store <;> nofun

theorem update (f : Store → Except StoreError Unit × Store) : (Exec.update f).Settles m := by
  unfold Settles Exec.update
  match f m.store with
  | (.ok _, s) => nofun
  | (.error e, s) => nofun

theorem readWord : Exec.readWord.Settles m := by
  unfold Settles Exec.readWord
  match m.input.word with
  | (.ok word, input) => nofun
  | (.error e, input) => nofun

theorem write (text : String) : (Exec.write text).Settles m := by
  unfold Settles Exec.write
  match m.output.write text with
  | (true, output) => nofun
  | (false, output) => nofun

theorem flush : Exec.flush.Settles m := by
  unfold Settles Exec.flush
  split <;> nofun

theorem dropLevelAfter (h : x.Settles m) : (Exec.dropLevelAfter x).Settles m := by
  unfold Settles Exec.dropLevelAfter
  cases hx : x m with
  | exhausted => exact absurd hx h
  | _ => nofun

theorem onLevel (h : x.Settles { m with store := m.store.newLevel }) :
    (Exec.onLevel x).Settles m :=
  dropLevelAfter h

theorem inFrame {scope : Scope}
    (h : x.Settles { m with store := m.store.newFrame scope, depth := m.depth + 1 }) :
    (Exec.inFrame scope x).Settles m := by
  have hd := dropLevelAfter h
  unfold Settles at hd ⊢
  unfold Exec.inFrame
  cases hx : Exec.dropLevelAfter x _ with
  | exhausted => exact absurd hx hd
  | _ => nofun

/-- What is evaluated comes to an end, if the calls in it do. -/
theorem closed : Closed fun x => ∀ m, x.Settles m where
  pure a _ := .pure a
  fail cause _ := .fail cause
  bind hx hy m := .bind (hx m) fun a m' _ => hy a m'
  lookup f _ := .lookup f
  store _ _ _ := .update _
  depth _ := nofun
  readWord _ := .readWord

end Settles

theorem bindArgs_settles (function : String) (params : List Param) (values : List Value) :
    (bindArgs function params values).Settles m := by
  induction params generalizing values m with
  | nil => exact .pure _
  | cons p params ih =>
    cases values with
    | nil => exact .pure _
    | cons v values =>
      unfold bindArgs
      split
      · exact .bind (.update _) fun _ _ _ => ih values
      · exact .fail _

end Offside.Exec
