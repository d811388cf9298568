import Offside.Proofs.Execution.Settling
import Offside.Proofs.Runs.Limits
import Offside.Proofs.Runs.Simulation

/-!
Without `while`, programs end. A loop over a range goes through the items that the range had at its
start, and calls are nested up to a limit only; so a number of steps that depends on the program and
the limit alone is enough, whatever the input is and however functions call each other.
-/

namespace Offside

mutual

/-- No `while` stands in the statement, nor in a block or the body of a function in it. -/
def Stmt.WhileFree : Stmt → Prop
  | .while .. => False
  | .declare .. | .expr .. | .return .. | .print .. | .read .. => True
  | .define _ _ _ _ body | .for _ _ _ body => Stmt.AllWhileFree body
  | .cond _ _ thenBlock none => Stmt.AllWhileFree thenBlock
  | .cond _ _ thenBlock (some elseBlock) =>
    Stmt.AllWhileFree thenBlock ∧ Stmt.AllWhileFree elseBlock

def Stmt.AllWhileFree : List Stmt → Prop
  | [] => True
  | stmt :: stmts => stmt.WhileFree ∧ Stmt.AllWhileFree stmts

end

namespace Stmt.WhileFree

variable {loc : Location} {e : Expr} {stmts : Block}

theorem thenBlock {otherwise : Option Block} (h : WhileFree (.cond loc e stmts otherwise)) :
    AllWhileFree stmts := by
  cases otherwise with
  | none => exact h
  | some stmts => exact h.1

theorem elseBlock {before : Block} (h : WhileFree (.cond loc e before (some stmts))) :
    AllWhileFree stmts :=
  h.2

end Stmt.WhileFree

/-- The block is without `while`, and not larger than `size`. -/
structure Block.Fits (size : Nat) (stmts : Block) : Prop where
  whileFree : Stmt.AllWhileFree stmts
  size_le : sizeOf stmts ≤ size

namespace Store

/-- All functions that are bound have bodies that fit. -/
def Bounded (size : Nat) (s : Store) : Prop :=
  ∀ (i : Nat) level, s.levels[i]? = some level → ∀ b ∈ level.bindings, ∀ f,
    b.entry = .function f → Block.Fits size f.body

variable {s t : Store} {size : Nat}

theorem Bounded.of_shape (h : s.Bounded size) (hs : t.shape = s.shape) : t.Bounded size := by
  intro i level hl b hb f hf
  obtain ⟨level', hl', he⟩ := levels_of_shape hs hl
  have hmem : b.erase ∈ level'.erase.bindings := he ▸ List.mem_map_of_mem hb
  obtain ⟨b', hb', heq⟩ := List.mem_map.mp hmem
  refine h i level' hl' b' hb' f ?_
  have hentry : b'.entry.erase = .function f := by
    rw [show b'.entry.erase = b.entry.erase from congrArg Binding.entry heq, hf]
    rfl
  cases he' : b'.entry with
  | «variable» v =>
    rw [he'] at hentry
    cases hentry
  | function g =>
    rw [he'] at hentry
    exact hentry

theorem Bounded.pushLevel (h : s.Bounded size) (parent : Option Link) :
    (s.pushLevel parent).Bounded size := by
  intro i level hl b hb
  obtain ⟨-, hl'⟩ | ⟨-, rfl⟩ := levels_pushLevel_cases hl
  · exact h i level hl' b hb
  · cases hb

theorem Bounded.extend (h : s.Bounded size) (hd : 0 < s.depth) (name : String) {entry : Entry}
    (he : ∀ f, entry = .function f → Block.Fits size f.body) :
    (s.extend name entry).Bounded size := by
  intro i level hl b hb
  obtain ⟨inner, hinner⟩ := exists_innermost hd
  obtain ⟨-, hl'⟩ | ⟨-, rfl⟩ := levels_extend_cases hinner hl
  · exact h i level hl' b hb
  · obtain rfl | hb' := List.mem_cons.mp hb
    · exact he
    · exact h _ inner hinner b hb'

theorem Bounded.body (h : s.Bounded size) {name : String} {f : Function} {scope : Scope}
    (hf : s.lookupFunction name = .ok (f, scope)) : Block.Fits size f.body := by
  obtain ⟨b, hb, -, he⟩ := find?_of_lookupFunction hf
  obtain ⟨level, hl, hfind⟩ := find?_some hb
  exact h _ level hl b (List.mem_of_find?_eq_some hfind) f he

end Store

/-- With `n` steps, syntax of size `work` can be gone through, and all calls made in it: no call is
nested beyond the limit, and each one goes through a body of limited size. -/
structure Machine.Affords (limit size n work : Nat) (m : Machine) : Prop where
  bounded : m.store.Bounded size
  enough : (limit - m.depth) * size + work ≤ n

namespace Machine

variable {limit size n work work' : Nat} {m m' : Machine}

theorem Affords.mono (h : m.Affords limit size n work) (hw : work' ≤ work) :
    m.Affords limit size n work' :=
  ⟨h.bounded, by have := h.enough; omega⟩

/-- A step is taken into a part of what is gone through. -/
theorem Affords.step (h : m.Affords limit size (n + 1) work) (hw : work' < work) :
    m.Affords limit size n work' :=
  ⟨h.bounded, by have := h.enough; omega⟩

theorem Affords.keeps (h : m.Affords limit size n work) (hk : m.Keeps m') :
    m'.Affords limit size n work :=
  ⟨h.bounded.of_shape hk.shape, by rw [hk.depth]; exact h.enough⟩

theorem Affords.located (h : m.Affords limit size n work) (loc : Location) :
    Affords limit size n work { m with location := some loc } :=
  ⟨h.bounded, h.enough⟩

theorem Affords.newLevel (h : m.Affords limit size n work) :
    Affords limit size n work { m with store := m.store.newLevel } :=
  ⟨h.bounded.pushLevel _, h.enough⟩

/-- What is left of the limit pays for the body of a function that is called. -/
theorem Affords.newFrame (h : m.Affords limit size n work) (hd : m.depth < limit) (scope : Scope) :
    Affords limit size n size
      { m with store := m.store.newFrame scope, depth := m.depth + 1 } where
  bounded := h.bounded.pushLevel _
  enough := by
    have hsplit : limit - m.depth = limit - (m.depth + 1) + 1 := by omega
    have henough := h.enough
    rw [hsplit, Nat.succ_mul] at henough
    dsimp only
    omega

theorem Affords.register (h : m.Affords limit size n work) (hd : 0 < m.store.depth)
    {name : String} {entry : Entry} {s : Store} (hr : m.store.register name entry = .ok s)
    (he : ∀ f, entry = .function f → Block.Fits size f.body) :
    Affords limit size n work { m with store := s } := by
  obtain ⟨-, rfl⟩ := Store.register_ok hd hr
  exact ⟨h.bounded.extend hd name he, h.enough⟩

theorem Affords.outer (h : m.Affords limit size n work) (hk : m.KeepsOuter m')
    (hb : m'.store.Bounded size) : m'.Affords limit size n work :=
  ⟨hb, by rw [hk.depth]; exact h.enough⟩

end Machine

/-- A statement binds no other function than one that is defined in it. -/
theorem Stmt.exec_bounded {limit n size : Nat} {stmt : Stmt} {m : Machine}
    (hfree : stmt.WhileFree) (hsize : sizeOf stmt ≤ size) (hd : 0 < m.store.depth)
    (h : m.store.Bounded size) :
    (stmt.exec limit n).Ends m (fun _ m' => m'.store.Bounded size) fun _ _ => True := by
  cases n with
  | zero => exact .exhausted
  | succ n =>
    cases hdeclares : stmt.declares? with
    | none =>
      have hk := stmt.exec_leaves limit (n + 1) m hd
      rw [hdeclares] at hk
      exact hk.mono (fun _ _ hk => h.of_shape hk.shape) fun _ _ _ => trivial
    | some =>
      refine .bind (.setLocation ?_)
      match stmt with
      | .declare loc name ty initializer =>
        have hv := Exec.Tidy.closed.evalOptional (Expr.eval_tidy limit n) initializer
        refine .bind ((hv _).mono (fun value m₁ hk₁ => ?_) fun _ _ _ => trivial)
        have hi := Exec.Tidy.closed.initialValue name ty value
        refine .bind ((hi m₁).mono (fun typed m₂ hk₂ => ?_) fun _ _ _ => trivial)
        refine .bind (.update (.declare _ _) (fun s hr => .pure ?_) fun _ _ => trivial)
        obtain ⟨-, rfl⟩ := Store.register_ok (hk₂.depth_pos (hk₁.depth_pos hd)) hr
        have h₂ := (h.of_shape hk₁.shape).of_shape hk₂.shape
        exact h₂.extend (hk₂.depth_pos (hk₁.depth_pos hd)) name nofun
      | .define loc name params returns body =>
        refine .bind (.update (.declare _ _) (fun s hr => .pure ?_) fun _ _ => trivial)
        obtain ⟨-, rfl⟩ := Store.register_ok hd hr
        refine h.extend hd name fun f hf => ?_
        cases hf
        exact ⟨hfree, by rw [Stmt.define.sizeOf_spec] at hsize; dsimp only; omega⟩

namespace Exec

/-- Arguments are no functions. -/
theorem bindArgs_affords {limit size n work : Nat} {m : Machine} (function : String)
    (params : List Param) (values : List Value) (hd : 0 < m.store.depth)
    (h : m.Affords limit size n work) :
    (bindArgs function params values).Ends m (fun _ m' => m'.Affords limit size n work)
      fun _ _ => True := by
  induction params generalizing values m with
  | nil => exact .pure h
  | cons p params ih =>
    cases values with
    | nil => exact .pure h
    | cons v values =>
      unfold bindArgs
      split
      · refine .bind (.update (.declare _ _) (fun s hr => ?_) fun _ _ => trivial)
        have ha := h.register hd hr nofun
        obtain ⟨-, rfl⟩ := Store.register_ok hd hr
        exact ih values (by simpa using hd) ha
      · exact .fail trivial

section Operands

variable {limit size n work : Nat} {m : Machine}
  (he : ∀ e m, m.Affords limit size n (sizeOf e) → (Expr.eval limit n e).Settles m)

include he

theorem evalValue_settles {e : Expr} (h : m.Affords limit size n (sizeOf e)) :
    (evalValue (Expr.eval limit n) e).Settles m :=
  .bind (he e m h) fun ev m' _ => Settles.closed.valueOf ev m'

theorem evalAll_settles {es : List Expr} (h : m.Affords limit size n (sizeOf es)) :
    (evalAll (Expr.eval limit n) es).Settles m := by
  induction es generalizing m with
  | nil => exact .pure _
  | cons e es ih =>
    have hsize : sizeOf (e :: es) = 1 + sizeOf e + sizeOf es := by simp
    refine .bind (evalValue_settles he (h.mono (by omega))) fun v m' hv => ?_
    have hk := (Tidy.closed.evalValue (Expr.eval_tidy limit n) e m).of_done hv
    exact .bind (ih ((h.keeps hk).mono (by omega))) fun vs _ _ => .pure _

theorem assign_settles {lhs rhs : Expr} {base : Option Operation}
    (hl : m.Affords limit size n (sizeOf lhs)) (hr : m.Affords limit size n (sizeOf rhs)) :
    (assign (Expr.eval limit n) lhs base rhs).Settles m := by
  refine .bind (he lhs m hl) fun ev m₁ h₁ => ?_
  have hk₁ := (Expr.eval_tidy limit n lhs m).of_done h₁
  refine .bind (Settles.closed.slotOf ev _) fun target m₂ h₂ => ?_
  have hk₂ := (Tidy.closed.slotOf ev m₁).of_done h₂
  refine .bind (evalValue_settles he (hr.keeps (hk₁.trans hk₂))) fun value _ _ => ?_
  cases base with
  | none => exact .bind (.pure _) fun _ _ _ => .bind (.update _) fun _ _ _ => .pure _
  | some op =>
    refine .bind (.lookup _) fun old _ _ => .bind (.ofExcept _) fun v _ _ => ?_
    exact .bind (.update _) fun _ _ _ => .pure _

theorem index_settles {lhs rhs : Expr} (hl : m.Affords limit size n (sizeOf lhs))
    (hr : m.Affords limit size n (sizeOf rhs)) :
    (index (Expr.eval limit n) lhs rhs).Settles m := by
  refine .bind (he lhs m hl) fun container m₁ h₁ => ?_
  have hk₁ := (Expr.eval_tidy limit n lhs m).of_done h₁
  refine .bind (evalValue_settles he (hr.keeps hk₁)) fun v _ _ => ?_
  split
  · exact Settles.closed.element container _ _
  · exact .fail _

theorem readInto_settles {target : Expr} (h : m.Affords limit size n (sizeOf target)) :
    (readInto (Expr.eval limit n) target).Settles m := by
  refine .bind (he target m h) fun ev _ _ => .bind (Settles.closed.slotOf ev _) fun slot _ _ => ?_
  refine .bind (.lookup _) fun old _ _ => .bind .readWord fun word _ _ => ?_
  exact .bind (.ofExcept _) fun new _ _ => .update _

theorem evalCondition_settles {e : Expr} (h : m.Affords limit size n (sizeOf e)) :
    (evalCondition (Expr.eval limit n) e).Settles m := by
  refine .bind (evalValue_settles he h) fun v _ _ => ?_
  split
  · exact .pure _
  · exact .fail _

theorem evalOptional_settles {e : Option Expr} (h : m.Affords limit size n (sizeOf e)) :
    (evalOptional (Expr.eval limit n) e).Settles m := by
  cases e with
  | none => exact .pure _
  | some e =>
    have hsize : sizeOf (some e) = 1 + sizeOf e := by simp
    exact .bind (evalValue_settles he (h.mono (by omega))) fun _ _ _ => .pure _

end Operands

section Blocks

variable {limit size n work : Nat} {m : Machine}
  (hs : ∀ stmt m, stmt.WhileFree → sizeOf stmt ≤ size →
    m.Affords limit size n (sizeOf stmt) → (Stmt.exec limit n stmt).Settles m)

include hs

theorem sequence_settles {stmts : List Stmt} (hd : 0 < m.store.depth)
    (hf : Block.Fits size stmts) (h : m.Affords limit size n (sizeOf stmts)) :
    (sequence (Stmt.exec limit n) stmts).Settles m := by
  induction stmts generalizing m with
  | nil => exact .pure _
  | cons stmt stmts ih =>
    have hsize : sizeOf (stmt :: stmts) = 1 + sizeOf stmt + sizeOf stmts := by simp
    have hle := hf.size_le
    obtain ⟨hstmt, hstmts⟩ := hf.whileFree
    refine .bind (hs stmt m hstmt (by omega) (h.mono (by omega))) fun signal m' hm => ?_
    cases signal with
    | next =>
      have hk := (stmt.exec_contained limit n m hd).of_done hm
      have hb := (stmt.exec_bounded hstmt (by omega) hd h.bounded).of_done hm
      refine ih ?_ ⟨hstmts, by omega⟩ ((h.outer hk hb).mono (by omega))
      rw [hk.levels]
      exact hd
    | «return» v => exact .pure _

theorem block_settles {stmts : Block} (hf : Block.Fits size stmts)
    (h : m.Affords limit size n (sizeOf stmts)) : (block (Stmt.exec limit n) stmts).Settles m :=
  .onLevel (sequence_settles hs (by simp) hf h.newLevel)

/-- The items of a loop are counted when it begins. -/
theorem forEach_settles {name : String} {element : Ty} {items : List Value} {stmts : Block}
    (hf : Block.Fits size stmts) (h : m.Affords limit size n (sizeOf stmts)) :
    (forEach name element (block (Stmt.exec limit n) stmts) items).Settles m := by
  induction items generalizing m with
  | nil => exact .pure _
  | cons item items ih =>
    refine .bind (.onLevel (.bind (.update _) fun _ m' hu => ?_)) fun signal m' hm => ?_
    · obtain ⟨s, hr, rfl⟩ := update_done (.declare _ _) hu
      exact block_settles hs hf (h.newLevel.register (by simp) hr nofun)
    · cases signal with
      | next =>
        have hb := tidy_block (Stmt.exec_contained limit n) stmts
        exact ih (h.keeps ((tidy_item hb name _ m).of_done hm))
      | «return» v => exact .pure _

theorem body_settles {name : String} {f : Function} {values : List Value}
    (hd : 0 < m.store.depth) (hf : Block.Fits size f.body) (h : m.Affords limit size n size) :
    (body (Stmt.exec limit n) name f values).Settles m := by
  refine .bind (bindArgs_settles _ _ _) fun _ m' hm => ?_
  have ha := (bindArgs_affords name f.params values hd h).of_done hm
  refine .bind (block_settles hs hf (ha.mono hf.size_le)) fun signal _ _ => ?_
  cases signal with
  | next => exact .pure _
  | «return» v => exact .pure _

end Blocks

section Steps

variable {limit size n work : Nat} {m : Machine}
  (he : ∀ e m, m.Affords limit size n (sizeOf e) → (Expr.eval limit n e).Settles m)
  (hs : ∀ stmt m, stmt.WhileFree → sizeOf stmt ≤ size →
    m.Affords limit size n (sizeOf stmt) → (Stmt.exec limit n stmt).Settles m)

include he hs

/-- The arguments are part of the call, and the body is paid for by the limit. -/
theorem call_settles {name : String} {args : List Expr} (h : m.Affords limit size (n + 1) work)
    (hw : sizeOf args < work) :
    (call limit (Expr.eval limit n) (Stmt.exec limit n) name args).Settles m := by
  refine .bind (.lookup _) fun ⟨f, scope⟩ m₁ hl => ?_
  obtain ⟨hf, rfl⟩ := lookup_done hl
  dsimp only
  split
  · refine .bind (evalAll_settles he (h.step hw)) fun values m₂ hv => ?_
    have hk := (Tidy.closed.evalAll (Expr.eval_tidy limit n) args m₁).of_done hv
    refine .bind nofun fun calls m₃ hc => ?_
    cases hc
    split
    · exact .fail _
    · case isFalse hlt =>
      have hrest : m₁.Affords limit size n 0 := h.step (by omega)
      have ha := (hrest.keeps hk).newFrame (by omega) scope
      refine .bind (.inFrame (body_settles hs (by simp) (h.bounded.body hf) ha)) fun _ _ _ => ?_
      exact Settles.closed.result _ _ _
  · exact .fail _

theorem evalStep_settles (e : Expr) (h : m.Affords limit size (n + 1) (sizeOf e)) :
    (evalStep limit (Expr.eval limit n) (Stmt.exec limit n) e).Settles m := by
  match e with
  | .boolean _ | .number _ | .string _ => exact .pure _
  | .identifier _ => exact .bind (.lookup _) fun _ _ _ => .pure _
  | .list es =>
    rw [Expr.list.sizeOf_spec] at h
    exact .bind (evalAll_settles he (h.step (by omega))) fun _ _ _ => .pure _
  | .unary _ arg =>
    rw [Expr.unary.sizeOf_spec] at h
    refine .bind (evalValue_settles he (h.step (by omega))) fun _ _ _ => ?_
    exact .bind (.ofExcept _) fun _ _ _ => .pure _
  | .binary lhs op rhs =>
    rw [Expr.binary.sizeOf_spec] at h
    have hl : m.Affords limit size n (sizeOf lhs) := h.step (by omega)
    have hr : m.Affords limit size n (sizeOf rhs) := h.step (by omega)
    match op with
    | .assign base => exact assign_settles he hl hr
    | .index => exact index_settles he hl hr
    | .operation _ =>
      refine .bind (evalValue_settles he hl) fun _ m' hm => ?_
      have hk := (Tidy.closed.evalValue (Expr.eval_tidy limit n) lhs m).of_done hm
      refine .bind (evalValue_settles he (hr.keeps hk)) fun _ _ _ => ?_
      exact .bind (.ofExcept _) fun _ _ _ => .pure _
  | .call name args =>
    rw [Expr.call.sizeOf_spec] at h
    refine .bind (call_settles he hs h (by omega)) fun returned _ _ => ?_
    cases returned with
    | some v => exact .pure _
    | none => exact .fail _

theorem execStep_settles (stmt : Stmt) (hf : stmt.WhileFree) (hsize : sizeOf stmt ≤ size)
    (h : m.Affords limit size (n + 1) (sizeOf stmt)) :
    (execStep limit (Expr.eval limit n) (Stmt.exec limit n) n stmt).Settles m := by
  refine .bind nofun fun _ m₁ hm => ?_
  obtain rfl : { m with location := some stmt.loc } = m₁ := by cases hm; rfl
  replace h := h.located stmt.loc
  match stmt with
  | .declare _ name ty initializer =>
    rw [Stmt.declare.sizeOf_spec] at h
    refine .bind (evalOptional_settles he (h.step (by omega))) fun value _ _ => ?_
    refine .bind (Settles.closed.initialValue _ _ _ _) fun _ _ _ => ?_
    exact .bind (.update _) fun _ _ _ => .pure _
  | .define .. => exact .bind (.update _) fun _ _ _ => .pure _
  | .expr _ e =>
    rw [Stmt.expr.sizeOf_spec] at h
    cases e with
    | call name args =>
      rw [Expr.call.sizeOf_spec] at h
      exact .bind (call_settles he hs h (by omega)) fun _ _ _ => .pure _
    | _ => exact .bind (he _ _ (h.step (by omega))) fun _ _ _ => .pure _
  | .return _ value =>
    rw [Stmt.return.sizeOf_spec] at h
    exact .bind (evalOptional_settles he (h.step (by omega))) fun _ _ _ => .pure _
  | .print _ e =>
    rw [Stmt.print.sizeOf_spec] at h
    refine .bind (evalValue_settles he (h.step (by omega))) fun _ _ _ => ?_
    exact .bind (.write _) fun _ _ _ => .pure _
  | .read _ target =>
    rw [Stmt.read.sizeOf_spec] at h
    exact .bind (readInto_settles he (h.step (by omega))) fun _ _ _ => .pure _
  | .cond _ condition thenBlock elseBlock =>
    rw [Stmt.cond.sizeOf_spec] at h hsize
    have hcond := Tidy.closed.evalCondition (Expr.eval_tidy limit n) condition
    refine .bind (evalCondition_settles he (h.step (by omega))) fun b m' hm => ?_
    have ha := h.keeps ((hcond _).of_done hm)
    split
    · exact block_settles hs ⟨hf.thenBlock, by omega⟩ (ha.step (by omega))
    · cases elseBlock with
      | some stmts =>
        rw [Option.some.sizeOf_spec] at ha hsize
        exact block_settles hs ⟨hf.elseBlock, by omega⟩ (ha.step (by omega))
      | none => exact .pure _
  | .while .. => exact absurd hf id
  | .for _ name range body =>
    rw [Stmt.for.sizeOf_spec] at h hsize
    have hrange := Tidy.closed.evalValue (Expr.eval_tidy limit n) range
    refine .bind (evalValue_settles he (h.step (by omega))) fun v m' hm => ?_
    have ha := h.keeps ((hrange _).of_done hm)
    split
    · exact forEach_settles hs ⟨hf, by omega⟩ (ha.step (by omega))
    · exact .fail _

end Steps

end Exec

open Exec in
theorem eval_exec_settle (limit size n : Nat) :
    (∀ e m, m.Affords limit size n (sizeOf e) → (Expr.eval limit n e).Settles m) ∧
      ∀ stmt m, stmt.WhileFree → sizeOf stmt ≤ size →
        m.Affords limit size n (sizeOf stmt) → (Stmt.exec limit n stmt).Settles m := by
  induction n with
  | zero =>
    constructor
    · intro e m h
      have henough := h.enough
      cases e <;> simp at henough
    · intro stmt m _ _ h
      have henough := h.enough
      cases stmt <;> simp at henough
  | succ n ih =>
    obtain ⟨he, hs⟩ := ih
    exact ⟨fun e _ h => evalStep_settles he hs e h,
      fun stmt _ hf hsize h => execStep_settles he hs stmt hf hsize h⟩

namespace Machine

variable {m : Machine} {program : Block}

/-- Between runs no function is bound. -/
theorem Idle.bounded (h : m.Idle) (size : Nat) : m.store.Bounded size := by
  intro i level hl b hb
  rw [h.bindings hl] at hb
  cases hb

/-- A program without `while` ends, whatever its input is, however its functions call each other
and whatever its loops change. The number of steps that are enough for it depends on the program and
the limit only. -/
theorem Idle.ends_without_while (h : m.Idle) (hfree : Stmt.AllWhileFree program) (limit : Nat) :
    ∃ outcome, outcome ≠ .exhausted ∧
      ∀ steps, (limit + 1) * sizeOf program ≤ steps → m.run limit steps program = outcome := by
  let enough := (limit + 1) * sizeOf program
  have hsettles : Exec.Settles (run limit enough program) m := by
    have ha : m.Affords limit (sizeOf program) enough (sizeOf program) := by
      refine ⟨h.bounded _, ?_⟩
      have hle : (limit - m.depth) * sizeOf program ≤ limit * sizeOf program :=
        Nat.mul_le_mul_right _ (Nat.sub_le ..)
      have hsplit : enough = limit * sizeOf program + sizeOf program := Nat.succ_mul ..
      omega
    rw [run_eq]
    have hs := (eval_exec_settle limit (sizeOf program) enough).2
    exact .bind (Exec.block_settles hs ⟨hfree, Nat.le_refl _⟩ ha) fun _ _ _ => .flush
  exact ⟨m.run limit enough program, hsettles, fun steps hle => run_steps hle hsettles⟩

/-- A function that makes the list longer through which it goes, and calls itself for each item. -/
def endlessCalls : Block :=
  [.declare ⟨1, 1⟩ "a" (some (.array .number)) (some (.list [.number 1])),
   .define ⟨2, 1⟩ "f" [] .none
    [.for ⟨3, 3⟩ "x" (.identifier "a")
      [.expr ⟨4, 5⟩ (.binary (.identifier "a") (.assign none)
        (.list [.identifier "x", .identifier "x"])),
       .expr ⟨5, 5⟩ (.call "f" [])]],
   .expr ⟨6, 1⟩ (.call "f" [])]

theorem Idle.ends_without_while_in_recursion :
    (Machine.new ⟨[], []⟩ .unlimited).Idle ∧ Stmt.AllWhileFree endlessCalls ∧
      ∃ outcome, outcome ≠ .exhausted ∧ ∀ steps, (1000 + 1) * sizeOf endlessCalls ≤ steps →
        (Machine.new ⟨[], []⟩ .unlimited).run 1000 steps endlessCalls = outcome := by
  have hidle : (Machine.new ⟨[], []⟩ .unlimited).Idle := .new _ _
  have hfree : Stmt.AllWhileFree endlessCalls := by
    simp [endlessCalls, Stmt.AllWhileFree, Stmt.WhileFree]
  exact ⟨hidle, hfree, hidle.ends_without_while hfree 1000⟩

end Machine

end Offside
