import Offside.Proofs.Execution.InputWords
import Offside.Proofs.Execution.Invariance
import Offside.Proofs.Runs.Reuse

/-!
The order in which programs are given the words of their input. Whatever they ask in, a statement or
a function, one program or the next on the same machine, they are given the words of the whole input
one after the other, and none after the last one.
-/

namespace Offside

namespace Exec

/-- The computation, started on the machine, asks for words of input, and this is what comes of it,
in the order of asking. The rules follow the operations of a machine and the ways in which
computations are put together; only `readWord` asks for a word. -/
inductive Asks : ∀ {α : Type}, Exec α → Machine → List (Except RuntimeError String) → Prop
  | word (h : readWord m = .done word m') : Asks readWord m [.ok word]
  | noWord (h : readWord m = .fault f m') : Asks readWord m [.error f.cause]
  | pure (a : α) : Asks (Pure.pure a) m []
  | fail (cause : RuntimeError) : Asks (fail cause : Exec α) m []
  | exhausted : Asks (exhausted : Exec α) m []
  | depth : Asks depth m []
  | lookup (f : Store → Except StoreError α) : Asks (lookup f) m []
  | update (f : Store → Except StoreError Unit × Store) : Asks (update f) m []
  | setLocation (loc : Location) : Asks (setLocation loc) m []
  | write (text : String) : Asks (write text) m []
  | flush : Asks flush m []
  | bind {x : Exec α} {y : α → Exec β} (hx : Asks x m first) (h : x m = .done a m')
      (hy : Asks (y a) m' second) : Asks (x >>= y) m (first ++ second)
  | bindStopped {x : Exec α} {y : α → Exec β} (hx : Asks x m first)
      (h : ∀ a m', x m ≠ .done a m') : Asks (x >>= y) m first
  | onLevel {x : Exec α} (hx : Asks x { m with store := m.store.newLevel } calls) :
      Asks (onLevel x) m calls
  | inFrame {x : Exec α} (scope : Scope)
      (hx : Asks x { m with store := m.store.newFrame scope, depth := m.depth + 1 } calls) :
      Asks (inFrame scope x) m calls

theorem readWord_ends (m : Machine) :
    readWord.Ends m (fun word m' => m.input.word = (.ok word, m'.input))
      fun f m' => ∃ e, f.cause = .input e ∧ m.input.word = (.error e, m'.input) := by
  unfold Ends readWord
  match m.input.word with
  | (.ok word, input) => rfl
  | (.error e, input) => exact ⟨e, rfl, rfl⟩

theorem readWord_after (m : Machine) :
    readWord.Ends m (fun _ m' => m'.input = m.input.after 1)
      fun _ m' => m'.input = m.input.after 1 :=
  (readWord_ends m).mono (fun _ _ h => (congrArg Prod.snd h).symm)
    fun _ _ ⟨_, _, h⟩ => (congrArg Prod.snd h).symm

theorem readWord_ne_exhausted (m : Machine) : readWord m ≠ .exhausted := by
  unfold readWord
  match m.input.word with
  | (.ok word, input) => nofun
  | (.error e, input) => nofun

/-- Whatever the machine, it is known what the computation asks for. -/
def Accounted {α : Type} (x : Exec α) : Prop :=
  ∀ m, ∃ calls, x.Asks m calls

namespace Accounted

variable {α β : Type}

theorem bind {x : Exec α} {y : α → Exec β} (hx : x.Accounted) (hy : ∀ a, (y a).Accounted) :
    (x >>= y).Accounted := by
  intro m
  obtain ⟨first, hfirst⟩ := hx m
  cases h : x m with
  | done a m' =>
    obtain ⟨second, hsecond⟩ := hy a m'
    exact ⟨_, .bind hfirst h hsecond⟩
  | fault f m' => exact ⟨first, .bindStopped hfirst (by rw [h]; nofun)⟩
  | exhausted => exact ⟨first, .bindStopped hfirst (by rw [h]; nofun)⟩

theorem onLevel {x : Exec α} (hx : x.Accounted) : (Exec.onLevel x).Accounted := by
  intro m
  obtain ⟨calls, h⟩ := hx { m with store := m.store.newLevel }
  exact ⟨calls, .onLevel h⟩

theorem inFrame {x : Exec α} (hx : x.Accounted) (scope : Scope) :
    (Exec.inFrame scope x).Accounted := by
  intro m
  obtain ⟨calls, h⟩ := hx { m with store := m.store.newFrame scope, depth := m.depth + 1 }
  exact ⟨calls, .inFrame scope h⟩

theorem closed : Closed (fun {α} => Accounted (α := α)) where
  pure a _ := ⟨_, .pure a⟩
  fail cause _ := ⟨_, .fail cause⟩
  bind := bind
  lookup f _ := ⟨_, .lookup f⟩
  store _ _ _ := ⟨_, .update _⟩
  depth _ := ⟨_, .depth⟩
  readWord m := by
    cases h : readWord m with
    | done word m' => exact ⟨_, .word h⟩
    | fault f m' => exact ⟨_, .noWord h⟩
    | exhausted => exact absurd h (readWord_ne_exhausted m)

theorem respected : Respected (fun {α} (x _ : Exec α) => x.Accounted) where
  pure := closed.pure
  fail := closed.fail
  bind hx hy := hx.bind hy
  onLevel hx := hx.onLevel
  resolve _ := closed.lookup _
  register _ _ _ _ := ⟨_, .update _⟩
  setLocation loc _ := ⟨_, .setLocation loc⟩
  write text _ := ⟨_, .write text⟩

variable {eval : Expr → Exec Evaluated} {exec : Stmt → Exec Signal}

theorem compared (he : ∀ e, (eval e).Accounted) (hs : ∀ stmt, (exec stmt).Accounted)
    (limit n : Nat) :
    Compared (fun {α} (x _ : Exec α) => x.Accounted) limit limit n n eval eval exec exec where
  expr := he
  stmt := hs
  value := closed.evalValue he
  index := closed.index he
  assign := closed.assign he
  readInto := closed.readInto he
  call := closed.call he fun scope name f values =>
    (@Congruent.body _ respected.toCongruent exec exec hs name f values).inFrame scope
  repeatWhile loc c c' b b' hc hb :=
    @Respected.repeatWhile _ respected loc c c' b b' 0 (fun _ => ⟨_, .exhausted⟩) hc hb n

end Accounted

end Exec

theorem eval_exec_accounted (limit n : Nat) :
    (∀ e, (Expr.eval limit n e).Accounted) ∧ ∀ stmt, (Stmt.exec limit n stmt).Accounted := by
  induction n with
  | zero => exact ⟨fun _ _ => ⟨_, .exhausted⟩, fun _ _ => ⟨_, .exhausted⟩⟩
  | succ n ih =>
    have hc := Exec.Accounted.compared ih.1 ih.2 limit n
    exact ⟨Exec.Accounted.respected.evalStep hc, Exec.Accounted.respected.execStep hc⟩

theorem Machine.run_accounted (limit steps : Nat) (program : Block) :
    Exec.Accounted (Machine.run limit steps program) := by
  rw [Machine.run_eq]
  have hblock := @Exec.Congruent.block _ Exec.Accounted.respected.toCongruent _ (Stmt.exec limit steps)
    (eval_exec_accounted limit steps).2 program
  exact hblock.bind fun _ _ => ⟨_, .flush⟩

namespace Exec.Asks

variable {α : Type} {x : Exec α} {m : Machine} {calls : List (Except RuntimeError String)}

/-- The words that are asked for are taken from the input, and otherwise it is left alone. -/
theorem takes (h : x.Asks m calls) :
    x.Ends m (fun _ m' => m'.input = m.input.after calls.length)
      fun _ m' => m'.input = m.input.after calls.length := by
  induction h with
  | @word m | @noWord m => exact readWord_after m
  | pure a => exact .pure rfl
  | fail cause => exact .fail rfl
  | exhausted => exact .exhausted
  | depth => exact .depth rfl
  | lookup f => exact .lookup (fun _ _ => rfl) fun _ _ => rfl
  | update f => exact .update_any f (fun _ => rfl) fun _ _ => rfl
  | setLocation loc => exact .setLocation rfl
  | write text => exact .write (fun _ => rfl) fun _ => rfl
  | @flush m =>
    unfold Ends Exec.flush
    cases m.output.flushes with
    | true => rfl
    | false => rfl
  | bind hx hdone hy ihx ihy =>
    rw [ihx.of_done hdone, ← Input.after_add, ← List.length_append] at ihy
    refine .bind (.intro (fun b m₁ hb => ?_) fun f m₁ hf => ?_)
    · cases hdone.symm.trans hb
      exact ihy
    · cases hdone.symm.trans hf
  | bindStopped hx hstop ih =>
    exact .bind (.intro (fun a m₁ ha => absurd ha (hstop a m₁)) fun f m₁ hf => ih.of_fault hf)
  | onLevel hx ih => exact .onLevel ih
  | inFrame scope hx ih => exact .inFrame scope ih

theorem given (h : x.Asks m calls) : m.input.Gives calls := by
  induction h with
  | @word m word m' h =>
    rw [Input.Gives, List.length_singleton, Input.answers, (readWord_ends m).of_done h]
    rfl
  | @noWord m f m' h =>
    obtain ⟨e, hcause, hword⟩ := (readWord_ends m).of_fault h
    rw [Input.Gives, List.length_singleton, Input.answers, hword, hcause]
    rfl
  | bind hx hdone hy ihx ihy =>
    rw [hx.takes.of_done hdone] at ihy
    exact ihx.append ihy
  | bindStopped hx hstop ih => exact ih
  | onLevel hx ih => exact ih
  | inFrame scope hx ih => exact ih
  | pure | fail | exhausted | depth | lookup | update | setLocation | write | flush => exact rfl

end Exec.Asks

namespace Machine

/-- The machine was `start` and has run programs since, and this is what came of asking for words in
them, in the order of asking. -/
inductive Used (start : Machine) : Machine → List (Except RuntimeError String) → Prop
  | new : Used start start []
  | done (h : Used start m calls) (hasks : Exec.Asks (Machine.run limit steps program) m more)
      (hr : m.run limit steps program = .done () m') : Used start m' (calls ++ more)
  | fault (h : Used start m calls) (hasks : Exec.Asks (Machine.run limit steps program) m more)
      (hr : m.run limit steps program = .fault f m') : Used start m' (calls ++ more)

namespace Used

variable {start m : Machine} {calls more : List (Except RuntimeError String)}

/-- From one program to the next, the input is left alone. -/
theorem takes (h : start.Used m calls) : m.input = start.input.after calls.length := by
  induction h with
  | new => rfl
  | done h hasks hr ih => rw [hasks.takes.of_done hr, ih, ← Input.after_add, List.length_append]
  | fault h hasks hr ih => rw [hasks.takes.of_fault hr, ih, ← Input.after_add, List.length_append]

theorem given (h : start.Used m calls) : start.input.Gives calls := by
  induction h with
  | new => rfl
  | done h hasks hr ih => exact ih.append (h.takes ▸ hasks.given)
  | fault h hasks hr ih => exact ih.append (h.takes ▸ hasks.given)

theorem given_run {limit steps : Nat} {program : Block} (h : start.Used m calls)
    (hasks : Exec.Asks (Machine.run limit steps program) m more) :
    start.input.Gives (calls ++ more) :=
  h.given.append (h.takes ▸ hasks.given)

/-- Whatever programs have asked for words on a machine, and the last one may still be running, the
words that they were given are those of the whole input, one after the other. Asking fails when all
of them have been given, and from then on. -/
theorem words_in_order {text : String} {output : Output} {m : Machine}
    {calls : List (Except RuntimeError String)}
    (h : (Machine.new (.ofBytes text.toUTF8) output).Used m calls) (limit steps : Nat)
    (program : Block) :
    let words := ((text.toList.splitOnP Text.isSpace).filter (· ≠ [])).map String.ofList
    (∃ more, Exec.Asks (Machine.run limit steps program) m more) ∧
      ∀ more, Exec.Asks (Machine.run limit steps program) m more →
        ∀ before result later, calls ++ more = before ++ result :: later →
          (∀ word, result = .ok word →
            words[(before.filterMap Except.toOption).length]? = some word) ∧
          (∀ e, result = .error e → e.message = "unexpected end of input") ∧
          ((∃ e, result = .error e) ↔ before.filterMap Except.toOption = words) ∧
          ((∃ e, result = .error e) → ∀ call ∈ later, ∃ e, call = .error e) := by
  intro words
  refine ⟨run_accounted limit steps program m, fun more hasks before result later hcalls => ?_⟩
  have hholds : (Input.ofBytes text.toUTF8).Holds words := by
    rw [Input.ofBytes_toUTF8]
    exact ⟨text.toList, rfl, by rw [Text.words_eq_pieces]; rfl⟩
  have hgiven := h.given_run hasks
  rw [hcalls] at hgiven
  obtain ⟨hword, herror, hall, hlater⟩ := hgiven.in_order hholds
  have hexists : (∃ e, result = .error e) ↔ result = .error (.input .exhausted) :=
    ⟨fun ⟨e, he⟩ => herror e he ▸ he, fun he => ⟨_, he⟩⟩
  rw [hexists]
  exact ⟨hword, fun e he => herror e he ▸ rfl, hall, fun he call hcall => ⟨_, hlater he call hcall⟩⟩

/-- A function reads a word on its own line, then one that is no boolean, which is used up as well;
the next run reads what is left of the line and finds no more. -/
theorem words_in_order_over_lines :
    ∃ (m : Machine) (later : List (Except RuntimeError String)) (program : Block),
      (Machine.new (.ofBytes "true\n\n  x false".toUTF8) .unlimited).Used m
        (.ok "true" :: .ok "x" :: later) ∧
      (m.run 8 9 program).cause? = some (.input .exhausted) := by
  let start := Machine.new (.ofBytes "true\n\n  x false".toUTF8) .unlimited
  let program : Block := [.define ⟨1, 1⟩ "f" [] .none
      [.declare ⟨2, 3⟩ "x" (some .boolean) none, .read ⟨3, 3⟩ (.identifier "x")],
    .expr ⟨4, 1⟩ (.call "f" []), .expr ⟨5, 1⟩ (.call "f" [])]
  have hruns : ((start.run 8 9 program).fault?.map (·.cause)) = some .notBoolean ∧
      ((start.run 8 9 program).last?.map fun m => (m.input, (m.run 8 9 program).cause?)) =
        some (⟨[], ["false"]⟩, some (.input .exhausted)) := by
    decide +kernel
  obtain ⟨hfault, hlast⟩ := hruns
  obtain ⟨f, hf, -⟩ := Option.map_eq_some_iff.1 hfault
  obtain ⟨m, hm⟩ := Outcome.eq_of_fault? hf
  rw [hm] at hlast
  obtain ⟨hinput, hcause⟩ := Prod.mk.inj (Option.some.inj hlast)
  obtain ⟨calls, hcalls⟩ := run_accounted 8 9 program start
  have hused : start.Used m calls := .fault .new hcalls hm
  obtain ⟨⟨more, hmore⟩, horder⟩ := hused.words_in_order 8 9 program
  have htakes := hused.takes
  rw [hinput] at htakes
  match calls with
  | [] => exact absurd htakes (show _ ≠ start.input.after 0 by decide +kernel)
  | [_] => exact absurd htakes (show _ ≠ start.input.after 1 by decide +kernel)
  | first :: second :: later =>
    obtain ⟨hword, -, hall, -⟩ := horder more hmore [] first (second :: later ++ more) rfl
    cases first with
    | error e => exact absurd (hall.1 ⟨e, rfl⟩) (by decide +kernel)
    | ok word =>
      cases (hword word rfl).symm.trans (by decide +kernel : _ = some "true")
      obtain ⟨hword, -, hall, -⟩ := horder more hmore [.ok "true"] second (later ++ more) rfl
      cases second with
      | error e => exact absurd (hall.1 ⟨e, rfl⟩) (by decide +kernel)
      | ok word =>
        cases (hword word rfl).symm.trans (by decide +kernel : _ = some "x")
        exact ⟨m, later, program, hused, hcause⟩

end Used

end Machine

end Offside
