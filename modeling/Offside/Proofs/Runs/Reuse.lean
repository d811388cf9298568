import Offside.Proofs.Execution.Likeness
import Offside.Proofs.Runs.Simulation

/-!
A machine that has run programs is as good as a new one. However they ended, nothing of them is left
but the number of the next binding; and a program cannot tell by which numbers its names are
bound, since only the order of the numbers matters.
-/

namespace Offside

/-- What fits is all written. -/
theorem Output.write_fits {o : Output} {text : String} (h : (o.write text).1 = true) :
    (o.write text).2.written = o.written ++ text.toUTF8 := by
  unfold write at h ⊢
  cases hr : o.room with
  | none => simp
  | some room =>
    simp only [hr] at h ⊢
    split at h
    · case isTrue hle => rw [if_pos hle]
    · cases h

/-- The numbers are greater in the second run, and the same was written in both. -/
def Likeness.shifted (offset : Nat) (before before' : ByteArray) : Likeness where
  recast := ⟨offset, fun _ => none⟩
  outputs o o' := ∃ text, o.written = before ++ text ∧ o'.written = before' ++ text
  lax := True
  write {o o'} text h := by
    cases hw : (o.write text).1 with
    | false => exact .inr ⟨trivial, .inl rfl⟩
    | true =>
      cases hw' : (o'.write text).1 with
      | false => exact .inr ⟨trivial, .inr rfl⟩
      | true =>
        obtain ⟨written, ho, ho'⟩ := h
        refine .inl ⟨rfl, written ++ text.toUTF8, ?_, ?_⟩
        · rw [Output.write_fits hw, ho, ByteArray.append_assoc]
        · rw [Output.write_fits hw', ho', ByteArray.append_assoc]

/-- Unless an output failed. -/
theorem Outcome.Both.strict {α : Type} {R : Machine → Machine → Prop} {lax : Prop}
    {o o' : Outcome α} (h : Both R lax o o') (ho : ¬ o.Lost) (ho' : ¬ o'.Lost) :
    Both R False o o' := by
  cases h with
  | done a h => exact .done a h
  | fault f h => exact .fault f h
  | exhausted => exact .exhausted
  | lost _ h => exact absurd h (not_or.mpr ⟨ho, ho'⟩)

/-- The machine that a computation leaves behind. -/
def Outcome.last? {α : Type} : Outcome α → Option Machine
  | .done _ m | .fault _ m => some m
  | .exhausted => none

/-- It does not matter which statement was executed before. -/
def Exec.Relocates {α : Type} (x : Exec α) : Prop :=
  ∀ m location, x { m with location := location } = x m

namespace Exec.Relocates

variable {α β : Type} {x : Exec α}

theorem bind (h : x.Relocates) (y : α → Exec β) : (x >>= y).Relocates := by
  intro m location
  change Exec.bind x y _ = Exec.bind x y m
  unfold Exec.bind
  rw [h]

theorem onLevel (h : x.Relocates) : (Exec.onLevel x).Relocates := by
  intro m location
  have hl := h { m with store := m.store.newLevel } location
  unfold Exec.onLevel Exec.dropLevelAfter
  dsimp only at hl ⊢
  rw [hl]

end Exec.Relocates

theorem Stmt.exec_relocates (limit n : Nat) (stmt : Stmt) : (stmt.exec limit n).Relocates := by
  cases n with
  | zero => exact fun _ _ => rfl
  | succ n => exact fun _ _ => rfl

namespace Machine

open Exec Outcome

variable {limit steps : Nat} {m : Machine}

theorem run_relocates (stmt : Stmt) (stmts : List Stmt) :
    Exec.Relocates (run limit steps (stmt :: stmts)) := by
  rw [run_eq]
  exact (((stmt.exec_relocates limit steps).bind _).onLevel).bind _

/-- Between runs there is a single level, with nothing on it. -/
theorem Idle.levels (h : m.Idle) : m.store.levels = #[.empty none] := by
  obtain ⟨input, output, hk⟩ := h.keeps
  have hnew : (Machine.new input output).store.shape = #[⟨[], none⟩] := by
    simp [Machine.new, Store.new, Store.shape, Level.erase, Level.empty]
  have hshape : m.store.levels.map Level.erase = #[⟨[], none⟩] := hk.shape.trans hnew
  obtain ⟨level, hl, he⟩ := Array.map_eq_singleton_iff.mp hshape
  obtain ⟨bindings, parent⟩ := level
  simp only [Level.erase, Level.mk.injEq, List.map_eq_nil_iff] at he
  obtain ⟨rfl, rfl⟩ := he
  exact hl

/-- A new machine, but for the location, is alike. -/
theorem Idle.alike (h : m.Idle) (output : Output) :
    (Likeness.shifted m.store.nextId output.written m.output.written).Alike
      { Machine.new m.input output with location := m.location } m where
  same := by
    obtain ⟨_, _, hk⟩ := h.keeps
    refine ⟨?_, rfl, ⟨.empty, by simp [Machine.new], by simp⟩, hk.depth, rfl⟩
    have hl := h.levels
    generalize m.store = s at hl
    obtain ⟨levels, nextId⟩ := s
    cases hl
    simp [Likeness.shifted, Recast.store, Machine.new, Store.new, Recast.level, Level.empty]
  valid := .new
  opened := Nat.one_pos
  spares := ⟨fun _ _ => rfl, fun _ _ => rfl⟩

/-- The second run took the same words of input, and wrote the same. -/
structure Repeats (before before' : ByteArray) (m m' : Machine) : Prop where
  input : m'.input = m.input
  written : ∃ text, m.output.written = before ++ text ∧ m'.output.written = before' ++ text

theorem flush_repeats {before before' : ByteArray} {m m' : Machine}
    (h : Repeats before before' m m') :
    Both (Repeats before before') True (flush m) (flush m') := by
  unfold flush
  by_cases hf : m.output.flushes = true
  · by_cases hf' : m'.output.flushes = true
    · rw [if_pos hf, if_pos hf']
      exact .done () h
    · rw [if_neg hf']
      exact .lost trivial (.inr ⟨.flush, rfl⟩)
  · rw [if_neg hf]
    exact .lost trivial (.inl ⟨.flush, rfl⟩)

/-- A machine that has run any programs runs a program as a new one does with the rest of its input.
As long as writing does not fail, both runs end in the same way, with the same fault if there is
one, they take the same input, and the same text is written. -/
theorem Idle.runs_as_new (h : m.Idle) (program : Block) (output : Output)
    (hnew : ¬ ((Machine.new m.input output).run limit steps program).Lost)
    (hused : ¬ (m.run limit steps program).Lost) :
    Both (Repeats output.written m.output.written) False
      ((Machine.new m.input output).run limit steps program) (m.run limit steps program) := by
  suffices hboth : Both (Repeats output.written m.output.written) True
      ((Machine.new m.input output).run limit steps program) (m.run limit steps program) from
    hboth.strict hnew hused
  have ha := h.alike output
  cases program with
  | nil =>
    rw [run_eq]
    exact flush_repeats ⟨rfl, .empty, by simp [Machine.new], by simp⟩
  | cons stmt stmts =>
    rw [← run_relocates stmt stmts (Machine.new m.input output) m.location, run_eq]
    let l := Likeness.shifted m.store.nextId output.written m.output.written
    have hblock := Likeness.Likewise.respected.block (l.exec_likewise limit steps) (stmt :: stmts)
    refine .bind ((hblock.ends ha).imp fun h => ?_) fun _ h => flush_repeats h
    exact ⟨h.same.input, h.same.outputs⟩

theorem not_lost {α : Type} {o : Outcome α} (h : o.cause? = none) : ¬ o.Lost := by
  cases o with
  | fault f m => cases h
  | _ => exact id

theorem Idle.last (h : m.Idle) {program : Block} {m' : Machine}
    (hl : (m.run limit steps program).last? = some m') : m'.Idle := by
  cases hr : m.run limit steps program with
  | done u m₁ =>
    rw [hr] at hl
    exact Option.some.inj hl ▸ h.done hr
  | fault f m₁ =>
    rw [hr] at hl
    exact Option.some.inj hl ▸ h.fault hr
  | exhausted =>
    rw [hr] at hl
    cases hl

/-- After a fault in a call, with names bound in it and a word left over, the word is read as if the
machine were new. -/
theorem Idle.runs_as_new_after_fault :
    ∃ (program : Block) (m : Machine), m.Idle ∧ m.input.pending = ["false"] ∧ m.store.nextId = 2 ∧
      ¬ ((Machine.new m.input .unlimited).run 8 9 program).Lost ∧ ¬ (m.run 8 9 program).Lost ∧
      Both (Repeats Output.unlimited.written m.output.written) False
        ((Machine.new m.input .unlimited).run 8 9 program) (m.run 8 9 program) := by
  let failing : Block := [.define ⟨1, 1⟩ "f" [] .none
      [.declare ⟨2, 3⟩ "x" (some .boolean) none, .read ⟨3, 3⟩ (.identifier "x"),
        .print ⟨4, 3⟩ (.identifier "x"), .print ⟨5, 3⟩ (.identifier "y")],
    .expr ⟨6, 1⟩ (.call "f" [])]
  let program : Block := [.declare ⟨1, 1⟩ "y" (some .boolean) none,
    .read ⟨2, 1⟩ (.identifier "y"), .print ⟨3, 1⟩ (.identifier "y")]
  have hruns : (((Machine.new ⟨[], ["true", "false"]⟩ .unlimited).run 8 9 failing).last?.map
      fun m => (m.input.pending, m.store.nextId,
        ((Machine.new m.input .unlimited).run 8 9 program).cause?,
        (m.run 8 9 program).cause?)) = some (["false"], 2, none, none) := by
    decide +kernel
  obtain ⟨m, hl, h⟩ := Option.map_eq_some_iff.mp hruns
  simp only [Prod.mk.injEq] at h
  obtain ⟨hpending, hid, hnew, hused⟩ := h
  have hm := Idle.last (.new _ _) hl
  exact ⟨program, m, hm, hpending, hid, not_lost hnew, not_lost hused,
    hm.runs_as_new program .unlimited (not_lost hnew) (not_lost hused)⟩

end Machine

end Offside
