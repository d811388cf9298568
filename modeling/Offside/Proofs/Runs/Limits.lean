import Offside.Proofs.Execution.Comparison

/-!
Runs with different limits. A run with a lower limit, or with fewer steps, goes the same way as the
other one for as long as it lasts. So a limit on nested calls never changes what a program does; it
can only end the run early, and then all that was written until then is written by the other run
too.
-/

namespace Offside

/-- All that was written by then is still there. -/
def Output.Before (o o' : Output) : Prop :=
  ∃ more, o'.written = o.written ++ more

namespace Output.Before

theorem refl (o : Output) : o.Before o :=
  ⟨.empty, by simp⟩

theorem trans {o o' o'' : Output} (h : o.Before o') (h' : o'.Before o'') : o.Before o'' := by
  obtain ⟨more, hm⟩ := h
  obtain ⟨more', hm'⟩ := h'
  exact ⟨more ++ more', by rw [hm', hm, ByteArray.append_assoc]⟩

/-- Also of a text that does not fit, only something is added. -/
theorem write (o : Output) (text : String) : o.Before (o.write text).2 := by
  unfold Output.write
  match o.room with
  | none => exact ⟨text.toUTF8, rfl⟩
  | some room =>
    dsimp only
    split
    · exact ⟨text.toUTF8, rfl⟩
    · exact ⟨text.toUTF8.extract 0 room, rfl⟩

end Output.Before

/-- Nothing that was written is taken back. -/
def Outcome.Adds {α : Type} (o : Output) : Outcome α → Prop
  | .done _ m | .fault _ m => o.Before m.output
  | .exhausted => True

theorem Outcome.Adds.after {α : Type} {o o' : Output} {outcome : Outcome α} (h : outcome.Adds o')
    (ho : o.Before o') : outcome.Adds o := by
  cases outcome with
  | done a m => exact ho.trans h
  | fault f m => exact ho.trans h
  | exhausted => trivial

/-- The first run went the same way as the second one, or it was cut short: its steps were used up,
or a call was refused to it for a limit that is lower than that of the second one. -/
inductive Cut {α : Type} (limit limit' : Nat) : Outcome α → Outcome α → Prop
  | same (outcome : Outcome α) : Cut limit limit' outcome outcome
  | exhausted (outcome : Outcome α) : Cut limit limit' .exhausted outcome
  | refused {location : Option Location} {m : Machine} {outcome : Outcome α}
      (hlt : limit < limit') (ho : outcome.Adds m.output) : Cut limit limit' (.fault ⟨.callDepth limit, location⟩ m) outcome

/-- With equal limits, only a lack of steps makes a difference. -/
theorem Cut.eq {α : Type} {limit : Nat} {outcome outcome' : Outcome α}
    (h : Cut limit limit outcome outcome') (hne : outcome ≠ .exhausted) : outcome' = outcome := by
  cases h with
  | same => rfl
  | exhausted => exact absurd rfl hne
  | refused hlt => exact absurd hlt (Nat.lt_irrefl limit)

namespace Exec

variable {α β : Type}

def Grows (x : Exec α) : Prop :=
  ∀ m, (x m).Adds m.output

namespace Grows

variable {x : Exec α}

theorem of_ends (h : ∀ m, x.Ends m (fun _ m' => m.output.Before m'.output)
    fun _ m' => m.output.Before m'.output) : x.Grows := by
  intro m
  have hm := h m
  unfold Ends at hm
  generalize x m = outcome at hm
  cases outcome <;> exact hm

theorem bind {y : α → Exec β} (hx : x.Grows) (hy : ∀ a, (y a).Grows) : (x >>= y).Grows := by
  intro m
  have hm := hx m
  change Outcome.Adds m.output (Exec.bind x y m)
  unfold Exec.bind
  generalize x m = outcome at hm
  cases outcome with
  | done a m' => exact (hy a m').after hm
  | fault f m' => exact hm
  | exhausted => trivial

theorem lookup (f : Store → Except StoreError α) : (Exec.lookup f).Grows :=
  .of_ends fun m => .lookup (fun _ _ => .refl m.output) fun _ _ => .refl m.output

theorem update (f : Store → Except StoreError Unit × Store) : (Exec.update f).Grows :=
  .of_ends fun m => .update_any f (fun _ => .refl m.output) fun _ _ => .refl m.output

theorem readWord : Exec.readWord.Grows :=
  .of_ends fun m => .readWord (fun _ _ => .refl m.output) fun _ _ => .refl m.output

theorem write (text : String) : (Exec.write text).Grows := by
  intro m
  have hw := Output.Before.write m.output text
  unfold Exec.write
  generalize m.output.write text = outcome at hw
  match outcome with
  | (true, output) => exact hw
  | (false, output) => exact hw

end Grows

/-- The first computation goes the same way as the second one, as far as it goes. -/
structure Cuts (limit limit' : Nat) {α : Type} (x y : Exec α) : Prop where
  grows : y.Grows
  cut : ∀ m, Cut limit limit' (x m) (y m)

namespace Cuts

variable {limit limit' : Nat} {x y : Exec α}

theorem of_grows (h : x.Grows) : Cuts limit limit' x x :=
  ⟨h, fun m => .same (x m)⟩

theorem of_exhausted (h : y.Grows) : Cuts limit limit' Exec.exhausted y :=
  ⟨h, fun m => .exhausted (y m)⟩

theorem bind {f g : α → Exec β} (h : Cuts limit limit' x y)
    (hf : ∀ a, Cuts limit limit' (f a) (g a)) : Cuts limit limit' (x >>= f) (y >>= g) where
  grows := h.grows.bind fun a => (hf a).grows
  cut m := by
    have hm := h.cut m
    change Cut limit limit' (Exec.bind x f m) (Exec.bind y g m)
    unfold Exec.bind
    generalize x m = outcome at hm
    generalize y m = outcome' at hm
    cases hm with
    | same outcome =>
      cases outcome with
      | done a m' => exact (hf a).cut m'
      | fault f' m' => exact .same _
      | exhausted => exact .same _
    | exhausted outcome' => exact .exhausted _
    | refused hlt ho =>
      refine .refused hlt ?_
      cases outcome' with
      | done a m' => exact ((hf a).grows m').after ho
      | fault f' m' => exact ho
      | exhausted => trivial

/-- What happens to the levels afterwards does not depend on how a computation ends. -/
theorem dropLevelAfter (h : Cuts limit limit' x y) :
    Cuts limit limit' (Exec.dropLevelAfter x) (Exec.dropLevelAfter y) where
  grows m := by
    have hm := h.grows m
    unfold Exec.dropLevelAfter
    generalize y m = outcome at hm
    cases outcome <;> exact hm
  cut m := by
    have hm := h.cut m
    unfold Exec.dropLevelAfter
    generalize x m = outcome at hm
    generalize y m = outcome' at hm
    cases hm with
    | same outcome => exact .same _
    | exhausted outcome' => exact .exhausted _
    | refused hlt ho =>
      refine .refused hlt ?_
      cases outcome' <;> exact ho

theorem onLevel (h : Cuts limit limit' x y) :
    Cuts limit limit' (Exec.onLevel x) (Exec.onLevel y) where
  grows m := h.dropLevelAfter.grows { m with store := m.store.newLevel }
  cut m := h.dropLevelAfter.cut { m with store := m.store.newLevel }

theorem inFrame (h : Cuts limit limit' x y) (scope : Scope) :
    Cuts limit limit' (Exec.inFrame scope x) (Exec.inFrame scope y) where
  grows m := by
    have hm := h.dropLevelAfter.grows
      { m with store := m.store.newFrame scope, depth := m.depth + 1 }
    unfold Exec.inFrame
    generalize Exec.dropLevelAfter y _ = outcome at hm
    cases outcome <;> exact hm
  cut m := by
    have hm := h.dropLevelAfter.cut { m with store := m.store.newFrame scope, depth := m.depth + 1 }
    unfold Exec.inFrame
    generalize Exec.dropLevelAfter x _ = outcome at hm
    generalize Exec.dropLevelAfter y _ = outcome' at hm
    cases hm with
    | same outcome => exact .same _
    | exhausted outcome' => exact .exhausted _
    | refused hlt ho =>
      refine .refused hlt ?_
      cases outcome' <;> exact ho

theorem respected : Respected (fun {α} => Cuts (α := α) limit limit') where
  pure _ := .of_grows fun m => .refl m.output
  fail _ := .of_grows fun m => .refl m.output
  bind h hf := h.bind hf
  onLevel h := h.onLevel
  resolve _ := .of_grows (.lookup _)
  register _ _ _ := .of_grows (.update _)
  setLocation _ := .of_grows fun m => .refl m.output
  write text := .of_grows (.write text)

/-- A call that the first run is refused may be granted to the second one. -/
theorem nested (hle : limit ≤ limit') (h : Cuts limit limit' x y) :
    Cuts limit limit'
      (do if limit ≤ (← Exec.depth) then Exec.fail (.callDepth limit) else x)
      (do if limit' ≤ (← Exec.depth) then Exec.fail (.callDepth limit') else y) where
  grows := by
    refine .bind (fun m => .refl m.output) fun depth => ?_
    split
    · exact fun m => .refl m.output
    · exact h.grows
  cut m := by
    change Cut limit limit' ((if limit ≤ m.depth then Exec.fail (.callDepth limit) else x) m)
      ((if limit' ≤ m.depth then Exec.fail (.callDepth limit') else y) m)
    obtain rfl | hlt := Nat.eq_or_lt_of_le hle
    · split
      · exact .same _
      · exact h.cut m
    · by_cases hd : limit ≤ m.depth
      · rw [if_pos hd]
        refine .refused hlt ?_
        split
        · exact .refl m.output
        · exact h.grows m
      · rw [if_neg hd, if_neg (by omega)]
        exact h.cut m

section Steps

variable {eval eval' : Expr → Exec Evaluated} {exec exec' : Stmt → Exec Signal}

theorem load (slot : Slot) : Cuts limit limit' (Exec.load slot) (Exec.load slot) :=
  .of_grows (.lookup _)

theorem store (slot : Slot) (v : Value) :
    Cuts limit limit' (Exec.update (·.put slot v)) (Exec.update (·.put slot v)) :=
  .of_grows (.update _)

theorem call (hle : limit ≤ limit') (he : ∀ e, Cuts limit limit' (eval e) (eval' e))
    (hs : ∀ stmt, Cuts limit limit' (exec stmt) (exec' stmt)) (name : String)
    (args : List Expr) :
    Cuts limit limit' (Exec.call limit eval exec name args)
      (Exec.call limit' eval' exec' name args) := by
  refine .bind (.of_grows (.lookup _)) fun ⟨f, scope⟩ => ?_
  dsimp only
  split
  · refine .bind (respected.evalAll (respected.evalValue load he) args) fun values => .nested hle ?_
    exact .bind ((respected.body hs name f values).inFrame scope) fun returned =>
      respected.result f.returns returned
  · exact respected.fail _

/-- If the second run may repeat loops more often, then only in what the first one does not come
to. -/
theorem compared (hle : limit ≤ limit') (he : ∀ e, Cuts limit limit' (eval e) (eval' e))
    (hs : ∀ stmt, Cuts limit limit' (exec stmt) (exec' stmt)) (n more : Nat) :
    Compared (fun {α} => Cuts (α := α) limit limit') limit limit' n (n + more) eval eval' exec
      exec' where
  expr := he
  stmt := hs
  value e := respected.evalValue load he e
  index lhs rhs := respected.index load he lhs rhs
  assign lhs base rhs := respected.assign load store he lhs base rhs
  readInto target := respected.readInto load store (.of_grows .readWord) he target
  call name args := call hle he hs name args
  repeatWhile loc condition condition' body body' hc hb := by
    refine respected.repeatWhile (.of_exhausted ?_) hc hb n
    have hstop : Cuts limit limit' exhausted (repeatWhile loc condition' body' 0) :=
      .of_exhausted fun _ => trivial
    exact (respected.repeatWhile hstop (.of_grows hc.grows) (.of_grows hb.grows) more).grows

end Steps

end Cuts

end Exec

section Runs

open Exec

variable {limit limit' : Nat}

theorem eval_exec_cuts (hle : limit ≤ limit') {more : Nat}
    (he : ∀ e, (Expr.eval limit' more e).Grows) (hs : ∀ stmt, (Stmt.exec limit' more stmt).Grows)
    (n : Nat) : (∀ e, Cuts limit limit' (Expr.eval limit n e) (Expr.eval limit' (n + more) e)) ∧
      ∀ stmt, Cuts limit limit' (Stmt.exec limit n stmt) (Stmt.exec limit' (n + more) stmt) := by
  induction n with
  | zero =>
    rw [Nat.zero_add]
    exact ⟨fun e => .of_exhausted (he e), fun stmt => .of_exhausted (hs stmt)⟩
  | succ n ih =>
    rw [Nat.succ_add]
    have hc := Cuts.compared hle ih.1 ih.2 n more
    exact ⟨fun e => Cuts.respected.evalStep hc e, fun stmt => Cuts.respected.execStep hc stmt⟩

/-- Nothing takes back what was written. -/
theorem eval_exec_grow (limit n : Nat) :
    (∀ e, (Expr.eval limit n e).Grows) ∧ ∀ stmt, (Stmt.exec limit n stmt).Grows := by
  have he (e : Expr) : (Expr.eval limit 0 e).Grows := fun _ => trivial
  have h := eval_exec_cuts (Nat.le_refl limit) he (fun _ _ => trivial) n
  exact ⟨fun e => (h.1 e).grows, fun stmt => (h.2 stmt).grows⟩

theorem Expr.eval_cuts (hle : limit ≤ limit') {n n' : Nat} (hn : n ≤ n') (e : Expr) :
    Cuts limit limit' (e.eval limit n) (e.eval limit' n') := by
  obtain ⟨more, rfl⟩ := Nat.exists_eq_add_of_le hn
  obtain ⟨he, hs⟩ := eval_exec_grow limit' more
  exact (eval_exec_cuts hle he hs n).1 e

theorem Stmt.exec_cuts (hle : limit ≤ limit') {n n' : Nat} (hn : n ≤ n') (stmt : Stmt) :
    Cuts limit limit' (stmt.exec limit n) (stmt.exec limit' n') := by
  obtain ⟨more, rfl⟩ := Nat.exists_eq_add_of_le hn
  obtain ⟨he, hs⟩ := eval_exec_grow limit' more
  exact (eval_exec_cuts hle he hs n).2 stmt

/-- An expression that ends comes to the same with more steps. -/
theorem Expr.eval_steps {n n' : Nat} {e : Expr} {m : Machine} (hn : n ≤ n')
    (h : e.eval limit n m ≠ .exhausted) : e.eval limit n' m = e.eval limit n m :=
  ((Expr.eval_cuts (Nat.le_refl limit) hn e).cut m).eq h

end Runs

namespace Machine

variable {limit limit' steps steps' : Nat}

theorem run_cuts (hle : limit ≤ limit') (hsteps : steps ≤ steps') (program : Block) :
    Exec.Cuts limit limit' (run limit steps program) (run limit' steps' program) := by
  rw [run_eq, run_eq]
  refine .bind (Exec.Cuts.respected.block (Stmt.exec_cuts hle hsteps) program) fun _ => ?_
  refine .of_grows fun m => ?_
  unfold Exec.flush
  split
  · exact .refl m.output
  · exact .refl m.output

/-- A run that ends is the same with more steps. -/
theorem run_steps {program : Block} {m : Machine} (hsteps : steps ≤ steps')
    (h : m.run limit steps program ≠ .exhausted) :
    m.run limit steps' program = m.run limit steps program :=
  ((run_cuts (Nat.le_refl limit) hsteps program).cut m).eq h

/-- What was written until a call was refused, is written too under the higher limit. The runs may
be given different numbers of steps: with the sum of both they come at least as far. -/
theorem run_adds {program : Block} {m m₁ : Machine} {f : RuntimeFault} (hle : limit ≤ limit')
    (h : m.run limit steps program = .fault f m₁) (steps' : Nat) :
    (m.run limit' steps' program).Adds m₁.output := by
  by_cases hx : m.run limit' steps' program = .exhausted
  · rw [hx]
    trivial
  · have hne : m.run limit steps program ≠ .exhausted := by
      rw [h]
      nofun
    have hlow := run_steps (Nat.le_add_right steps steps') hne
    have hhigh := run_steps (Nat.le_add_left steps' steps) hx
    have hc := (run_cuts hle (Nat.le_refl (steps + steps')) program).cut m
    rw [hlow, hhigh, h] at hc
    generalize m.run limit' steps' program = outcome at hc
    cases hc with
    | same => exact .refl m₁.output
    | refused hlt ho => exact ho

/-- The limit on nested calls only cuts runs short. A run in which no call is refused goes the same
way under a higher limit; and if a call is refused, then what was written until then is the
beginning of what is written under the higher limit, whenever that run ends. -/
theorem limit_only_cuts_short (hle : limit ≤ limit') (program : Block) (m : Machine) :
    (∀ m₁, m.run limit steps program = .done () m₁ → m.run limit' steps program = .done () m₁) ∧
      ∀ f m₁, m.run limit steps program = .fault f m₁ →
        (f.cause ≠ .callDepth limit → m.run limit' steps program = .fault f m₁) ∧
          (f.cause = .callDepth limit →
            ∀ steps', (m.run limit' steps' program).Adds m₁.output) := by
  have hc := (run_cuts hle (Nat.le_refl steps) program).cut m
  refine ⟨fun m₁ h => ?_, fun f m₁ h => ⟨fun hf => ?_, fun _ => run_adds hle h⟩⟩
  · rw [h] at hc
    generalize m.run limit' steps program = outcome at hc
    cases hc with
    | same => rfl
  · rw [h] at hc
    generalize m.run limit' steps program = outcome at hc
    cases hc with
    | same => rfl
    | refused => exact absurd rfl hf

/-- A function that calls itself prints once before the second call is refused. -/
theorem limit_only_cuts_short_in_recursion :
    ∃ (program : Block) (f : RuntimeFault) (m₁ : Machine), 1 ≤ 4 ∧
      (Machine.new ⟨[], []⟩ .unlimited).run 1 9 program = .fault f m₁ ∧ f.cause = .callDepth 1 ∧
      ∀ steps, ((Machine.new ⟨[], []⟩ .unlimited).run 4 steps program).Adds m₁.output := by
  let program : Block := [.define ⟨1, 1⟩ "f" [] .none
      [.print ⟨2, 3⟩ (.string "a"), .expr ⟨3, 3⟩ (.call "f" [])],
    .expr ⟨4, 1⟩ (.call "f" [])]
  have hc : ((Machine.new ⟨[], []⟩ .unlimited).run 1 9 program).cause? = some (.callDepth 1) := by
    decide +kernel
  obtain ⟨f, m₁, hr, hf⟩ := Outcome.eq_fault hc
  have ha := ((limit_only_cuts_short (show 1 ≤ 4 by decide) program _).2 f m₁ hr).2 hf
  exact ⟨program, f, m₁, by decide, hr, hf, ha⟩

end Machine

end Offside
