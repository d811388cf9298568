import Offside.Proofs.Execution.Closure
import Offside.Proofs.Scope.Shape

/-!
What execution leaves of the levels. Whatever an expression does, and however it ends, all levels
are there again afterwards with the same bindings, and only values differ. A statement adds the
name that it declares to the innermost level, and a block nothing. This holds of programs that were
never checked too.
-/

namespace Offside

/-- Only values of variables differ, apart from input, output and the location. -/
structure Machine.Keeps (m m' : Machine) : Prop where
  shape : m'.store.shape = m.store.shape
  count : m.store.nextId ≤ m'.store.nextId
  depth : m'.depth = m.depth

/-- The same, except for what is bound on the innermost level. -/
structure Machine.KeepsOuter (m m' : Machine) : Prop where
  shape : m'.store.shape.pop = m.store.shape.pop
  levels : m'.store.depth = m.store.depth
  count : m.store.nextId ≤ m'.store.nextId
  depth : m'.depth = m.depth
  valid : m.store.Valid → m'.store.Valid

/-- The name that a statement binds on the level it is on. -/
def Stmt.declares? : Stmt → Option String
  | .declare _ name _ _ | .define _ name _ _ _ => some name
  | _ => none

/-- A new name is bound on the innermost level, and all else is kept. -/
def Machine.Declares (name : String) (m m' : Machine) : Prop :=
  ∃ m₁ entry, m.Keeps m₁ ∧ name ∉ m₁.store.locals ∧
    m' = { m₁ with store := m₁.store.extend name entry }

def Machine.Leaves (declared : Option String) (m m' : Machine) : Prop :=
  match declared with
  | none => m.Keeps m'
  | some name => m.Declares name m'

namespace Machine.Keeps

variable {m m' m'' : Machine}

theorem refl (m : Machine) : m.Keeps m :=
  ⟨rfl, Nat.le_refl _, rfl⟩

theorem trans (h : m.Keeps m') (h' : m'.Keeps m'') : m.Keeps m'' :=
  ⟨h'.shape.trans h.shape, Nat.le_trans h.count h'.count, h'.depth.trans h.depth⟩

theorem valid (h : m.Keeps m') (hm : m.store.Valid) : m'.store.Valid :=
  hm.of_shape h.shape h.count

theorem depth_pos (h : m.Keeps m') (hd : 0 < m.store.depth) : 0 < m'.store.depth := by
  rw [Store.depth_of_shape h.shape]
  exact hd

theorem outer (h : m.Keeps m') : m.KeepsOuter m' :=
  ⟨by rw [h.shape], Store.depth_of_shape h.shape, h.count, h.depth, h.valid⟩

theorem leaves {declared : Option String} (h : m.Keeps m') (h' : m'.Leaves declared m'') :
    m.Leaves declared m'' := by
  cases declared with
  | none => exact h.trans h'
  | some name =>
    obtain ⟨m₁, entry, hk, hn, rfl⟩ := h'
    exact ⟨m₁, entry, h.trans hk, hn, rfl⟩

/-- Where the store is the same, nothing is bound or dropped. -/
theorem of_store (hs : m'.store = m.store) (hd : m'.depth = m.depth) : m.Keeps m' :=
  ⟨congrArg Store.shape hs, Nat.le_of_eq (congrArg Store.nextId hs.symm), hd⟩

end Machine.Keeps

namespace Machine.KeepsOuter

variable {m m' m'' : Machine}

theorem trans (h : m.KeepsOuter m') (h' : m'.KeepsOuter m'') : m.KeepsOuter m'' :=
  ⟨h'.shape.trans h.shape, h'.levels.trans h.levels, Nat.le_trans h.count h'.count,
    h'.depth.trans h.depth, fun hm => h'.valid (h.valid hm)⟩

theorem extend (hd : 0 < m.store.depth) {name : String} (hn : name ∉ m.store.locals)
    (entry : Entry) : m.KeepsOuter { m with store := m.store.extend name entry } where
  shape := by
    rw [Store.shape_extend]
    apply Array.ext_getElem?
    intro i
    rw [Array.getElem?_pop, Array.getElem?_pop, Array.size_modify, Array.getElem?_modify]
    split
    · case isTrue hi =>
      rw [if_neg]
      simp only [Store.shape, Array.size_map, Store.depth] at hi ⊢
      omega
    · rfl
  levels := Store.depth_extend _ _ _
  count := Nat.le_succ _
  depth := rfl
  valid hm := hm.extend hd hn entry

/-- When the innermost level is dropped, all is as it was before it was opened. -/
theorem deleteLevel {parent : Option Link}
    (h : KeepsOuter { m with store := m.store.pushLevel parent } m') :
    m.Keeps { m' with store := m'.store.deleteLevel } where
  shape := by
    rw [Store.shape_deleteLevel, h.shape]
    simp [Store.pushLevel, Store.shape]
  count := h.count
  depth := h.depth

end Machine.KeepsOuter

namespace Exec

variable {α β : Type} {x : Exec α}

/-- The computation keeps all levels, however it ends. -/
def Tidy (x : Exec α) : Prop :=
  ∀ m, x.Ends m (fun _ m' => m.Keeps m') fun _ m' => m.Keeps m'

/-- The computation binds a name on the innermost level when it is done, or no name, and keeps all
levels otherwise. -/
def Leaves (x : Exec α) (declared : Option String) : Prop :=
  ∀ m, 0 < m.store.depth → x.Ends m (fun _ m' => m.Leaves declared m') fun _ m' => m.Keeps m'

/-- The computation keeps all levels but the innermost one, however it ends. -/
def Contained (x : Exec α) : Prop :=
  ∀ m, 0 < m.store.depth → x.Ends m (fun _ m' => m.KeepsOuter m') fun _ m' => m.KeepsOuter m'

namespace Tidy

theorem contained (h : x.Tidy) : x.Contained :=
  fun m _ => (h m).mono (fun _ _ hk => hk.outer) fun _ _ hk => hk.outer

theorem bind {y : α → Exec β} (hx : x.Tidy) (hy : ∀ a, (y a).Tidy) : (x >>= y).Tidy :=
  fun m => .bind <| (hx m).mono
    (fun a m' hk => (hy a m').mono (fun _ _ hk' => hk.trans hk') fun _ _ hk' => hk.trans hk')
    fun _ _ hk => hk

theorem pure (a : α) : (Pure.pure a : Exec α).Tidy :=
  fun m => .refl m

theorem fail (cause : RuntimeError) : (Exec.fail cause : Exec α).Tidy :=
  fun m => .refl m

theorem exhausted : (Exec.exhausted : Exec α).Tidy :=
  fun _ => trivial

theorem lookup (f : Store → Except StoreError α) : (Exec.lookup f).Tidy :=
  fun m => .lookup (fun _ _ => .refl m) fun _ _ => .refl m

theorem store (slot : Slot) (v : Value) : (Exec.update (·.put slot v)).Tidy :=
  fun m => .update (.put slot v)
    (fun _ hs => ⟨(Store.shape_store hs).1, Nat.le_of_eq (Store.shape_store hs).2.symm, rfl⟩)
    fun _ _ => .refl m

theorem setLocation (loc : Location) : (Exec.setLocation loc).Tidy :=
  fun _ => .setLocation (.of_store rfl rfl)

theorem depth : Exec.depth.Tidy :=
  fun m => .depth (.refl m)

theorem readWord : Exec.readWord.Tidy :=
  fun _ => .readWord (fun _ _ => .of_store rfl rfl) fun _ _ => .of_store rfl rfl

theorem write (text : String) : (Exec.write text).Tidy :=
  fun _ => .write (fun _ => .of_store rfl rfl) fun _ => .of_store rfl rfl

/-- What is evaluated keeps all levels, if the calls in it do. -/
theorem closed : Closed Tidy :=
  ⟨pure, fail, bind, lookup, store, depth, readWord⟩

end Tidy

namespace Contained

theorem bind {y : α → Exec β} (hx : x.Contained) (hy : ∀ a, (y a).Contained) : (x >>= y).Contained := by
  intro m hd
  refine .bind <| (hx m hd).mono (fun a m' hk => ?_) fun _ _ hk => hk
  have hd' : 0 < m'.store.depth := by
    rw [hk.levels]
    exact hd
  exact (hy a m' hd').mono (fun _ _ hk' => hk.trans hk') fun _ _ hk' => hk.trans hk'

theorem register (name : String) (entry : Entry) : (Exec.update (·.declare name entry)).Contained := by
  intro m hd
  refine .update (.declare name entry) (fun s hs => ?_) fun _ _ => (Machine.Keeps.refl m).outer
  obtain ⟨hn, rfl⟩ := Store.register_ok hd hs
  exact .extend hd hn entry

theorem onLevel (h : x.Contained) : (Exec.onLevel x).Tidy := by
  intro m
  have hx := h { m with store := m.store.newLevel } (by simp)
  exact .onLevel (hx.mono (fun _ _ hk => hk.deleteLevel) fun _ _ hk => hk.deleteLevel)

theorem inFrame (h : x.Contained) (scope : Scope) : (Exec.inFrame scope x).Tidy := by
  intro m
  have hx := h { m with store := m.store.newFrame scope, depth := m.depth + 1 } (by simp)
  have back : ∀ m', Machine.KeepsOuter
      { m with store := m.store.newFrame scope, depth := m.depth + 1 } m' →
      m.Keeps (Machine.leave { m' with store := m'.store.deleteLevel } m.location) := by
    intro m' hk
    unfold Store.newFrame at hk
    have hk' := hk.deleteLevel (m := { m with depth := m.depth + 1 })
    refine ⟨hk'.shape, hk'.count, ?_⟩
    simp [Machine.leave, hk.depth]
  exact .inFrame scope (hx.mono (fun _ m' hk => back m' hk) fun _ m' hk => back m' hk)

end Contained

theorem Tidy.leaves (h : x.Tidy) : x.Leaves none :=
  fun m _ => h m

namespace Leaves

variable {declared : Option String}

theorem after {y : α → Exec β} (hx : x.Tidy) (hy : ∀ a, (y a).Leaves declared) :
    (x >>= y).Leaves declared := by
  intro m hd
  refine .bind <| (hx m).mono (fun a m₁ hk => ?_) fun _ _ hk => hk
  exact (hy a m₁ (hk.depth_pos hd)).mono (fun _ _ hl => hk.leaves hl) fun _ _ hk' => hk.trans hk'

theorem register (name : String) (entry : Entry) :
    Leaves (update (·.declare name entry) >>= fun _ => Pure.pure Signal.next) (some name) := by
  intro m hd
  refine .bind (.update (.declare name entry) (fun s hs => ?_) fun _ _ => .refl m)
  obtain ⟨hn, rfl⟩ := Store.register_ok hd hs
  exact ⟨m, entry, .refl m, hn, rfl⟩

theorem contained (h : x.Leaves declared) : x.Contained := by
  intro m hd
  refine (h m hd).mono (fun _ m' hl => ?_) fun _ _ hk => hk.outer
  cases declared with
  | none => exact hl.outer
  | some name =>
    obtain ⟨m₁, entry, hk, hn, rfl⟩ := hl
    exact hk.outer.trans (.extend (hk.depth_pos hd) hn entry)

end Leaves

section Steps

variable {limit : Nat} {eval : Expr → Exec Evaluated} {exec : Stmt → Exec Signal}

theorem contained_bindArgs (function : String) (params : List Param) (values : List Value) :
    (bindArgs function params values).Contained := by
  induction params generalizing values with
  | nil => exact (Tidy.pure _).contained
  | cons p params ih =>
    cases values with
    | nil => exact (Tidy.pure _).contained
    | cons v values =>
      unfold bindArgs
      split
      · exact .bind (.register _ _) fun _ => ih values
      · exact (Tidy.fail _).contained

theorem contained_sequence (hs : ∀ stmt, (exec stmt).Contained) (stmts : List Stmt) :
    (sequence exec stmts).Contained := by
  induction stmts with
  | nil => exact (Tidy.pure _).contained
  | cons stmt stmts ih =>
    refine .bind (hs stmt) fun signal => ?_
    cases signal with
    | next => exact ih
    | «return» v => exact (Tidy.pure _).contained

theorem tidy_block (hs : ∀ stmt, (exec stmt).Contained) (stmts : Block) :
    (block exec stmts).Tidy :=
  (contained_sequence hs stmts).onLevel

theorem contained_body (hs : ∀ stmt, (exec stmt).Contained) (name : String) (f : Function)
    (values : List Value) : (body exec name f values).Contained := by
  refine .bind (contained_bindArgs _ _ _) fun _ => ?_
  refine .bind (tidy_block hs f.body).contained fun signal => ?_
  cases signal with
  | next => exact (Tidy.pure _).contained
  | «return» v => exact (Tidy.pure _).contained

theorem tidy_frame (hs : ∀ stmt, (exec stmt).Contained) (scope : Scope) (name : String)
    (f : Function) (values : List Value) : (inFrame scope (body exec name f values)).Tidy :=
  (contained_body hs name f values).inFrame scope

theorem tidy_repeatWhile {loc : Location} {condition : Exec Bool} {body : Exec Signal}
    (hc : condition.Tidy) (hb : body.Tidy) (n : Nat) : (repeatWhile loc condition body n).Tidy := by
  induction n with
  | zero => exact .exhausted
  | succ n ih =>
    refine .bind (.setLocation loc) fun _ => .bind hc fun again => ?_
    split
    · refine .bind hb fun signal => ?_
      cases signal with
      | next => exact ih
      | «return» v => exact .pure _
    · exact .pure _

/-- The variable of a loop is on a level of its own. -/
theorem tidy_item {body : Exec Signal} (hb : body.Tidy) (name : String) (entry : Entry) :
    (onLevel (update (·.declare name entry) >>= fun _ => body)).Tidy :=
  (Contained.bind (.register name entry) fun _ => hb.contained).onLevel

theorem tidy_forEach {name : String} {element : Ty} {body : Exec Signal} (hb : body.Tidy)
    (items : List Value) : (forEach name element body items).Tidy := by
  induction items with
  | nil => exact .pure _
  | cons item items ih =>
    refine .bind (tidy_item hb name _) fun signal => ?_
    cases signal with
    | next => exact ih
    | «return» v => exact .pure _

theorem execStep_leaves (he : ∀ e, (eval e).Tidy) (hs : ∀ stmt, (exec stmt).Contained) (n : Nat)
    (stmt : Stmt) : (execStep limit eval exec n stmt).Leaves stmt.declares? := by
  refine .after (.setLocation _) fun _ => ?_
  match stmt with
  | .declare _ name ty initializer =>
    refine .after (Tidy.closed.evalOptional he initializer) fun value => ?_
    exact .after (Tidy.closed.initialValue name ty value) fun _ => .register name _
  | .define _ name params returns body => exact .register name _
  | .expr _ e =>
    cases e with
    | call name args =>
      have hcall : (call limit eval exec name args).Tidy :=
        Tidy.closed.call he (tidy_frame hs) name args
      exact (Tidy.bind hcall fun _ => .pure _).leaves
    | _ => exact (Tidy.bind (he _) fun _ => .pure _).leaves
  | .return _ value => exact (Tidy.bind (Tidy.closed.evalOptional he value) fun _ => .pure _).leaves
  | .print _ e =>
    exact (Tidy.bind (Tidy.closed.evalValue he e) fun _ => .bind (.write _) fun _ => .pure _).leaves
  | .read _ target => exact (Tidy.bind (Tidy.closed.readInto he target) fun _ => .pure _).leaves
  | .cond _ condition thenBlock elseBlock =>
    refine (Tidy.bind (Tidy.closed.evalCondition he condition) fun b => ?_).leaves
    split
    · exact tidy_block hs thenBlock
    · split
      · exact tidy_block hs _
      · exact .pure _
  | .while _ condition body =>
    exact (tidy_repeatWhile (Tidy.closed.evalCondition he condition) (tidy_block hs body) n).leaves
  | .for _ name range body =>
    refine (Tidy.bind (Tidy.closed.evalValue he range) fun v => ?_).leaves
    split
    · exact tidy_forEach (tidy_block hs body) _
    · exact .fail _

end Steps

end Exec

open Exec in
theorem eval_exec_keep (limit n : Nat) :
    (∀ e, (Expr.eval limit n e).Tidy) ∧
      ∀ stmt, (Stmt.exec limit n stmt).Leaves stmt.declares? := by
  induction n with
  | zero => exact ⟨fun _ => .exhausted, fun _ _ _ => trivial⟩
  | succ n ih =>
    obtain ⟨he, hs⟩ := ih
    have hc := fun stmt => (hs stmt).contained
    exact ⟨fun e => Tidy.closed.evalStep he (tidy_frame hc) e,
      fun stmt => execStep_leaves he hc n stmt⟩

/-- However an expression ends, all levels are there again with the same bindings. -/
theorem Expr.eval_tidy (limit n : Nat) (e : Expr) : (e.eval limit n).Tidy :=
  (eval_exec_keep limit n).1 e

/-- A statement adds what it declares, and that only if it is done. -/
theorem Stmt.exec_leaves (limit n : Nat) (stmt : Stmt) :
    (stmt.exec limit n).Leaves stmt.declares? :=
  (eval_exec_keep limit n).2 stmt

theorem Stmt.exec_contained (limit n : Nat) (stmt : Stmt) : (stmt.exec limit n).Contained :=
  (stmt.exec_leaves limit n).contained

end Offside
