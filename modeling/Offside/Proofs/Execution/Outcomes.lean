import Offside.Execution
import Offside.Proofs.Scope.Writes

/-!
What can be said of the ways in which a computation ends.
-/

namespace Offside

namespace Outcome

/-- Why a computation could not go on, if it could not. -/
def cause? {α : Type} : Outcome α → Option RuntimeError
  | .fault f _ => some f.cause
  | _ => none

theorem eq_fault {α : Type} {outcome : Outcome α} {cause : RuntimeError}
    (h : outcome.cause? = some cause) : ∃ f m, outcome = .fault f m ∧ f.cause = cause := by
  cases outcome with
  | fault f m => exact ⟨f, m, rfl, Option.some.inj h⟩
  | _ => cases h

def fault? {α : Type} : Outcome α → Option RuntimeFault
  | .fault f _ => some f
  | _ => none

theorem eq_of_fault? {α : Type} {outcome : Outcome α} {f : RuntimeFault}
    (h : outcome.fault? = some f) : ∃ m, outcome = .fault f m := by
  cases outcome with
  | fault f m =>
    cases h
    exact ⟨m, rfl⟩
  | _ => cases h

end Outcome

namespace Exec

variable {α β : Type}

/-- When the computation is done, `Q` holds of its result and the machine behind it; after a fault,
`R` holds. Nothing is said of a computation that runs out of steps. -/
def Ends (x : Exec α) (m : Machine) (Q : α → Machine → Prop)
    (R : RuntimeFault → Machine → Prop) : Prop :=
  match x m with
  | .done a m' => Q a m'
  | .fault f m' => R f m'
  | .exhausted => True

theorem bind_assoc {γ : Type} (x : Exec α) (y : α → Exec β) (z : β → Exec γ) :
    x >>= y >>= z = x >>= fun a => y a >>= z := by
  funext m
  change Exec.bind (Exec.bind x y) z m = Exec.bind x (fun a => Exec.bind (y a) z) m
  unfold Exec.bind
  cases x m <;> rfl

/-- The second parts are compared only from where the first part ends. -/
theorem bind_congr {x x' : Exec α} {y y' : α → Exec β} {m : Machine} (hx : x m = x' m)
    (hy : ∀ a m', x' m = .done a m' → y a m' = y' a m') : (x >>= y) m = (x' >>= y') m := by
  change Exec.bind x y m = Exec.bind x' y' m
  unfold Exec.bind
  rw [hx]
  cases h : x' m with
  | done a m' => exact hy a m' h
  | fault f m' => rfl
  | exhausted => rfl

theorem bind_pure (x : Exec α) : x >>= Pure.pure = x := by
  funext m
  change Exec.bind x Exec.pure m = x m
  unfold Exec.bind
  cases x m <;> rfl

theorem bind_of_done {x : Exec α} {y : α → Exec β} {m m' : Machine} {a : α}
    (h : x m = .done a m') : (x >>= y) m = y a m' := by
  change Exec.bind x y m = y a m'
  unfold Exec.bind
  rw [h]

theorem bind_of_fault {x : Exec α} {y : α → Exec β} {m m' : Machine} {f : RuntimeFault}
    (h : x m = .fault f m') : (x >>= y) m = .fault f m' := by
  change Exec.bind x y m = .fault f m'
  unfold Exec.bind
  rw [h]

theorem lookup_bind_ok {f : Store → Except StoreError α} {y : α → Exec β} {m : Machine} {a : α}
    (h : f m.store = .ok a) : (lookup f >>= y) m = y a m :=
  bind_of_done (by simp only [lookup, h])

theorem lookup_bind_error {f : Store → Except StoreError α} {y : α → Exec β} {m : Machine}
    {e : StoreError} (h : f m.store = .error e) : (lookup f >>= y) m = fail (.store e) m :=
  bind_of_fault (by simp only [lookup, h]; rfl)

section Done

variable {m m' : Machine}

theorem pure_done {a b : α} (h : (Pure.pure a : Exec α) m = .done b m') : b = a ∧ m' = m := by
  change Outcome.done a m = .done b m' at h
  cases h
  exact ⟨rfl, rfl⟩

theorem bind_done {x : Exec α} {y : α → Exec β} {b : β} (h : (x >>= y) m = .done b m') :
    ∃ a m₁, x m = .done a m₁ ∧ y a m₁ = .done b m' := by
  change Exec.bind x y m = .done b m' at h
  unfold Exec.bind at h
  split at h
  · case h_1 a m₁ hx => exact ⟨a, m₁, hx, h⟩
  · cases h
  · cases h

theorem ofExcept_done {r : Except RuntimeError α} {a : α} (h : ofExcept r m = .done a m') :
    r = .ok a ∧ m' = m := by
  cases r with
  | ok b =>
    obtain ⟨rfl, rfl⟩ := pure_done h
    exact ⟨rfl, rfl⟩
  | error cause => cases h

theorem lookup_done {f : Store → Except StoreError α} {a : α} (h : lookup f m = .done a m') :
    f m.store = .ok a ∧ m' = m := by
  unfold lookup at h
  split at h
  · case h_1 b hb =>
    cases h
    exact ⟨hb, rfl⟩
  · cases h

theorem update_eq {f : Store → Except StoreError Unit × Store}
    {change : Store → Except StoreError Store} (hf : Store.Attempts f change) (m : Machine) :
    update f m =
      match change m.store with
      | .ok s => .done () { m with store := s }
      | .error e => .fault ⟨.store e, m.location⟩ m := by
  unfold update
  rw [hf]
  cases change m.store <;> rfl

theorem update_done {f : Store → Except StoreError Unit × Store}
    {change : Store → Except StoreError Store} (hf : Store.Attempts f change) {u : Unit}
    (h : update f m = .done u m') :
    ∃ s, change m.store = .ok s ∧ m' = { m with store := s } := by
  rw [update_eq hf] at h
  split at h
  · case h_1 s hs =>
    cases h
    exact ⟨s, hs, rfl⟩
  · cases h

/-- To take the value of a result changes nothing. -/
theorem evalValue_done {eval : Expr → Exec Evaluated} {e : Expr} {v : Value}
    (h : evalValue eval e m = .done v m') : ∃ ev, eval e m = .done ev m' := by
  obtain ⟨ev, m₁, hev, h⟩ := bind_done h
  refine ⟨ev, ?_⟩
  cases ev with
  | slot slot =>
    obtain ⟨-, rfl⟩ := lookup_done (f := (·.load slot)) h
    exact hev
  | value w =>
    obtain ⟨-, rfl⟩ := pure_done (a := w) h
    exact hev

/-- To look whether a condition holds changes nothing. -/
theorem evalCondition_done {eval : Expr → Exec Evaluated} {e : Expr} {b : Bool}
    (h : evalCondition eval e m = .done b m') : ∃ v, evalValue eval e m = .done v m' := by
  obtain ⟨v, m₁, hv, h⟩ := bind_done h
  cases hb : v.asBoolean? with
  | some b' =>
    simp only [hb] at h
    obtain ⟨-, rfl⟩ := pure_done h
    exact ⟨v, hv⟩
  | none =>
    simp only [hb] at h
    cases h

end Done

namespace Ends

variable {x : Exec α} {m m' : Machine} {Q Q' : α → Machine → Prop}
  {R R' : RuntimeFault → Machine → Prop}

theorem of_done {a : α} (h : x.Ends m Q R) (hx : x m = .done a m') : Q a m' := by
  unfold Ends at h
  rw [hx] at h
  exact h

theorem of_fault {f : RuntimeFault} (h : x.Ends m Q R) (hx : x m = .fault f m') : R f m' := by
  unfold Ends at h
  rw [hx] at h
  exact h

theorem intro (hQ : ∀ a m', x m = .done a m' → Q a m')
    (hR : ∀ f m', x m = .fault f m' → R f m') : x.Ends m Q R := by
  unfold Ends
  cases hx : x m with
  | done a m' => exact hQ a m' hx
  | fault f m' => exact hR f m' hx
  | exhausted => trivial

theorem mono (h : x.Ends m Q R) (hQ : ∀ a m', Q a m' → Q' a m') (hR : ∀ f m', R f m' → R' f m') :
    x.Ends m Q' R' :=
  intro (fun a m' hx => hQ a m' (h.of_done hx)) fun f m' hx => hR f m' (h.of_fault hx)

theorem and (h : x.Ends m Q R) (h' : x.Ends m Q' R') :
    x.Ends m (fun a m => Q a m ∧ Q' a m) fun f m => R f m ∧ R' f m :=
  intro (fun _ _ hx => ⟨h.of_done hx, h'.of_done hx⟩) fun _ _ hx => ⟨h.of_fault hx, h'.of_fault hx⟩

theorem pure {a : α} (h : Q a m) : (Pure.pure a : Exec α).Ends m Q R :=
  h

theorem fail {cause : RuntimeError} (h : R ⟨cause, m.location⟩ m) :
    (Exec.fail cause : Exec α).Ends m Q R :=
  h

theorem exhausted : (Exec.exhausted : Exec α).Ends m Q R :=
  trivial

theorem bind {y : α → Exec β} {Q : β → Machine → Prop}
    (h : x.Ends m (fun a m' => (y a).Ends m' Q R) R) : (x >>= y).Ends m Q R := by
  unfold Ends at h ⊢
  change match Exec.bind x y m with
    | .done a m' => Q a m'
    | .fault f m' => R f m'
    | .exhausted => True
  unfold Exec.bind
  cases hx : x m with
  | done a m' =>
    rw [hx] at h
    exact h
  | fault f m' =>
    rw [hx] at h
    exact h
  | exhausted => trivial

/-- Nothing is known of what comes first. -/
theorem after {y : α → Exec β} {Q : β → Machine → Prop}
    (hy : ∀ a m', (y a).Ends m' Q fun _ _ => True) : (x >>= y).Ends m Q fun _ _ => True :=
  .bind (.intro (fun a m' _ => hy a m') fun _ _ _ => trivial)

theorem ofExcept {r : Except RuntimeError α} (hok : ∀ a, r = .ok a → Q a m)
    (herror : ∀ cause, r = .error cause → R ⟨cause, m.location⟩ m) :
    (Exec.ofExcept r).Ends m Q R := by
  cases r with
  | ok a => exact hok a rfl
  | error cause => exact herror cause rfl

theorem lookup {f : Store → Except StoreError α} (hok : ∀ a, f m.store = .ok a → Q a m)
    (herror : ∀ e, f m.store = .error e → R ⟨.store e, m.location⟩ m) :
    (Exec.lookup f).Ends m Q R := by
  unfold Ends Exec.lookup
  cases hf : f m.store with
  | ok a => exact hok a hf
  | error e => exact herror e hf

/-- Whatever is done to the store, only the store can be another one. -/
theorem update_any (f : Store → Except StoreError Unit × Store) {Q : Unit → Machine → Prop}
    (hok : ∀ s, Q () { m with store := s })
    (herror : ∀ e s, R ⟨.store e, m.location⟩ { m with store := s }) :
    (Exec.update f).Ends m Q R := by
  unfold Ends Exec.update
  match f m.store with
  | (.ok _, s) => exact hok s
  | (.error e, s) => exact herror e s

theorem update_store (f : Store → Except StoreError Unit × Store) :
    (Exec.update f).Ends m (fun _ m' => m'.store = (f m.store).2)
      fun _ m' => m'.store = (f m.store).2 := by
  unfold Ends Exec.update
  match f m.store with
  | (.ok _, s) => rfl
  | (.error e, s) => rfl

theorem update {f : Store → Except StoreError Unit × Store}
    {change : Store → Except StoreError Store} {Q : Unit → Machine → Prop}
    (hf : Store.Attempts f change)
    (hok : ∀ s, change m.store = .ok s → Q () { m with store := s })
    (herror : ∀ e, change m.store = .error e → R ⟨.store e, m.location⟩ m) :
    (Exec.update f).Ends m Q R := by
  unfold Ends
  rw [update_eq hf]
  cases hc : change m.store with
  | ok s => exact hok s hc
  | error e => exact herror e hc

theorem lookup_ok {f : Store → Except StoreError α} {a : α} (h : f m.store = .ok a)
    (hQ : Q a m) : (Exec.lookup f).Ends m Q R := by
  unfold Ends Exec.lookup
  rw [h]
  exact hQ

theorem update_ok {f : Store → Except StoreError Unit × Store}
    {change : Store → Except StoreError Store} {s : Store} {Q : Unit → Machine → Prop}
    (hf : Store.Attempts f change) (h : change m.store = .ok s)
    (hQ : Q () { m with store := s }) : (Exec.update f).Ends m Q R := by
  unfold Ends
  rw [update_eq hf, h]
  exact hQ

theorem setLocation {loc : Location} {Q : Unit → Machine → Prop}
    (h : Q () { m with location := some loc }) : (Exec.setLocation loc).Ends m Q R :=
  h

theorem dropLevelAfter
    (h : x.Ends m (fun a m' => Q a { m' with store := m'.store.deleteLevel })
      fun f m' => R f { m' with store := m'.store.deleteLevel }) :
    (Exec.dropLevelAfter x).Ends m Q R := by
  unfold Ends at h ⊢
  unfold Exec.dropLevelAfter
  cases hx : x m with
  | done a m' =>
    rw [hx] at h
    exact h
  | fault f m' =>
    rw [hx] at h
    exact h
  | exhausted => trivial

theorem onLevel
    (h : x.Ends { m with store := m.store.newLevel }
      (fun a m' => Q a { m' with store := m'.store.deleteLevel })
      fun f m' => R f { m' with store := m'.store.deleteLevel }) :
    (Exec.onLevel x).Ends m Q R :=
  dropLevelAfter h

theorem inFrame (scope : Scope)
    (h : x.Ends { m with store := m.store.newFrame scope, depth := m.depth + 1 }
      (fun a m' => Q a (Machine.leave { m' with store := m'.store.deleteLevel } m.location))
      fun f m' => R f (Machine.leave { m' with store := m'.store.deleteLevel } m.location)) :
    (Exec.inFrame scope x).Ends m Q R := by
  have hd := dropLevelAfter
    (Q := fun a m' => Q a (m'.leave m.location)) (R := fun f m' => R f (m'.leave m.location)) h
  unfold Ends at hd ⊢
  unfold Exec.inFrame
  generalize Exec.dropLevelAfter x _ = outcome at hd ⊢
  cases outcome with
  | done a m' => exact hd
  | fault f m' => exact hd
  | exhausted => trivial

theorem depth {Q : Nat → Machine → Prop} (h : Q m.depth m) : Exec.depth.Ends m Q R :=
  h

/-- Reading a word of input changes nothing but the input. -/
theorem readWord {Q : String → Machine → Prop}
    (hok : ∀ word input, Q word { m with input := input })
    (herror : ∀ e input, R ⟨.input e, m.location⟩ { m with input := input }) :
    Exec.readWord.Ends m Q R := by
  unfold Ends Exec.readWord
  match m.input.word with
  | (.ok word, input) => exact hok word input
  | (.error e, input) => exact herror e input

/-- Writing changes nothing but the output. -/
theorem write {text : String} {Q : Unit → Machine → Prop}
    (hok : ∀ output, Q () { m with output := output })
    (herror : ∀ output, R ⟨.output .full, m.location⟩ { m with output := output }) :
    (Exec.write text).Ends m Q R := by
  unfold Ends Exec.write
  match m.output.write text with
  | (true, output) => exact hok output
  | (false, output) => exact herror output

end Ends

end Exec

/-- A program is a block, and then what was written is flushed. -/
theorem Machine.run_eq (limit steps : Nat) (program : Block) : Machine.run limit steps program =
    Exec.block (Stmt.exec limit steps) program >>= fun _ => Exec.flush := by
  funext m
  change _ = Exec.bind _ _ m
  unfold Machine.run Exec.bind
  cases Exec.block (Stmt.exec limit steps) program m <;> rfl

end Offside
