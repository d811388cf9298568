import Offside.Proofs.Execution.Discipline
import Offside.Proofs.Scope.Walks
import Offside.Proofs.Typing.Checking

/-!
What programs do to a store, operation by operation. Whatever the program, accepted by the checker
or not, running it and checking it go on with the history of the store in the way that is asked of
its users: a frame is opened only in a scope that was looked up, and whose level was not deleted
since. So all that holds of stores with such a history holds all through a run.
-/

namespace Offside

namespace Store

/-- From the first session to the second one, no scope was lost. -/
structure Session.Extends (session session' : Session) : Prop where
  depth : session.store.depth ≤ session'.store.depth
  scopes : ∀ scope ∈ session.scopes, scope ∈ session'.scopes

/-- The history goes on: more operations of this kind follow, each where it is legal, and the store
after them is as it says at the end. -/
def Session.Continues (ops : List Op) (session : Session) (performs : List Op → Prop)
    (ends : Store → Prop) : Prop :=
  ∃ more session' r', performs more ∧ Reached (ops ++ more) session' r' ∧
    session.Extends session' ∧ ends session'.store

namespace Session

variable {ops : List Op} {s s' : Store} {scopes : List Scope} {session session' : Session}
  {r : Lexical} {performs performs' : List Op → Prop} {ends ends' : Store → Prop}

namespace Extends

theorem refl (session : Session) : session.Extends session :=
  ⟨Nat.le_refl _, fun _ hm => hm⟩

theorem trans (h : session.Extends session') {session'' : Session}
    (h' : session'.Extends session'') : session.Extends session'' :=
  ⟨Nat.le_trans h.depth h'.depth, fun scope hm => h'.scopes scope (h.scopes scope hm)⟩

theorem register (name : String) (entry : Entry) :
    Extends ⟨s, scopes⟩ ((Op.register name entry).apply ⟨s, scopes⟩) := by
  refine ⟨?_, fun _ hm => hm⟩
  simp only [Op.apply, declare_eq]
  cases hr : s.register name entry with
  | error e => exact Nat.le_refl _
  | ok s' =>
    by_cases hd : 0 < s.depth
    · obtain ⟨-, rfl⟩ := register_ok hd hr
      exact Nat.le_of_eq (depth_extend s name entry).symm
    · exact Nat.le_trans (Nat.le_of_not_lt hd) (Nat.zero_le _)

theorem store (slot : Slot) (v : Value) :
    Extends ⟨s, scopes⟩ ((Op.store slot v).apply ⟨s, scopes⟩) := by
  refine ⟨?_, fun _ hm => hm⟩
  simp only [Op.apply, put_eq]
  cases hs : s.store slot v with
  | error e => exact Nat.le_refl _
  | ok s' => exact Nat.le_of_eq (depth_of_shape (shape_store hs).1).symm

theorem pushLevel (s : Store) (scopes : List Scope) (parent : Option Link) :
    Extends ⟨s, scopes⟩ ⟨s.pushLevel parent, scopes⟩ :=
  ⟨by simp, fun _ hm => hm⟩

theorem lookupFunction (s : Store) (scopes : List Scope) (scope : Scope) :
    Extends ⟨s, scopes⟩ ⟨s, scope :: scopes⟩ :=
  ⟨Nat.le_refl _, fun _ hm => List.mem_cons_of_mem _ hm⟩

/-- When the level that was opened first is deleted at the end, no scope of before goes with it. -/
theorem deleteLevel {parent : Option Link}
    (h : Extends ⟨s.pushLevel parent, scopes⟩ session')
    (hs : ∀ scope ∈ scopes, s.Stands scope) :
    Extends ⟨s, scopes⟩ (Op.deleteLevel.apply session') := by
  have hd : s.depth + 1 ≤ session'.store.depth := by simpa using h.depth
  refine ⟨?_, fun scope hm => List.mem_filter.2 ⟨h.scopes scope hm, ?_⟩⟩
  · simp only [Op.apply, depth_deleteLevel]
    omega
  · have := (hs scope hm).lt_depth
    simp only [decide_eq_true_eq]
    omega

end Extends

namespace Continues

variable {op : Op}

theorem none (h : Reached ops session r) (hperforms : performs []) (hends : ends session.store) :
    session.Continues ops performs ends :=
  ⟨[], session, r, hperforms, by rwa [List.append_nil], .refl _, hends⟩

theorem single (h : Reached ops session r) (op : Op) (legal : op.Legal session)
    (hextends : session.Extends (op.apply session)) (hperforms : performs [op])
    (hends : ends (op.apply session).store) : session.Continues ops performs ends :=
  ⟨[op], op.apply session, _, hperforms, h.step op legal, hextends, hends⟩

theorem cons (h : session'.Continues (ops ++ [op]) performs ends)
    (hextends : session.Extends session')
    (hperforms : ∀ more, performs more → performs' (op :: more))
    (hends : ∀ s, ends s → ends' s) : session.Continues ops performs' ends' := by
  obtain ⟨more, session'', r', hmore, hr, hextends', hend⟩ := h
  rw [List.append_assoc] at hr
  exact ⟨op :: more, session'', r', hperforms more hmore, hr, hextends.trans hextends',
    hends _ hend⟩

/-- The level that was opened first is deleted at the end. -/
theorem deleteLevel {parent : Option Link} (hs : ∀ scope ∈ scopes, s.Stands scope)
    (h : Session.Continues ops ⟨s.pushLevel parent, scopes⟩ performs ends)
    (hperforms : ∀ inner, performs inner → performs' (inner ++ [.deleteLevel]))
    (hends : ∀ s, ends s → ends' s.deleteLevel) :
    Session.Continues ops ⟨s, scopes⟩ performs' ends' := by
  obtain ⟨inner, session', r', hinner, hr, hextends, hend⟩ := h
  have hr' := hr.step .deleteLevel trivial
  rw [List.append_assoc] at hr'
  exact ⟨inner ++ [.deleteLevel], _, _, hperforms inner hinner, hr', hextends.deleteLevel hs,
    hends _ hend⟩

end Continues

end Session

end Store

open Store

namespace Exec

/-- The computation, started on the machine, does these operations on the store, one after the
other. The rules follow the operations of a machine and the ways in which computations are put
together. A computation is a function, which may be put together in other ways too, so these are the
operations of one of them; the frames at the moments of a run are in `Visited.frame_stands`. -/
inductive Performs : ∀ {α : Type}, Exec α → Machine → List Op → Prop
  | pure (a : α) : Performs (Pure.pure a) m []
  | fail (cause : RuntimeError) : Performs (fail cause : Exec α) m []
  | exhausted : Performs (exhausted : Exec α) m []
  | depth : Performs depth m []
  | setLocation (loc : Location) : Performs (setLocation loc) m []
  | readWord : Performs readWord m []
  | write (text : String) : Performs (write text) m []
  | flush : Performs flush m []
  | resolve (name : String) : Performs (lookup (·.resolve name)) m []
  | load (slot : Slot) : Performs (load slot) m []
  | lookupFunction (name : String) :
      Performs (lookup (·.lookupFunction name)) m [.lookupFunction name]
  | register (name : String) (entry : Entry) :
      Performs (update (·.declare name entry)) m [.register name entry]
  | store (slot : Slot) (v : Value) : Performs (update (·.put slot v)) m [.store slot v]
  | bind {x : Exec α} {y : α → Exec β} (hx : Performs x m first) (h : x m = .done a m')
      (hy : Performs (y a) m' second) : Performs (x >>= y) m (first ++ second)
  | bindStopped {x : Exec α} {y : α → Exec β} (hx : Performs x m first)
      (h : ∀ a m', x m ≠ .done a m') : Performs (x >>= y) m first
  | dropLevel {x : Exec α} (hx : Performs x m inside) (h : x m ≠ .exhausted) :
      Performs (dropLevelAfter x) m (inside ++ [.deleteLevel])
  | dropLevelExhausted {x : Exec α} (hx : Performs x m inside) (h : x m = .exhausted) :
      Performs (dropLevelAfter x) m inside
  | onLevel {x : Exec α}
      (hx : Performs (dropLevelAfter x) { m with store := m.store.newLevel } inside) :
      Performs (onLevel x) m (.newLevel :: inside)
  | inFrame {x : Exec α} (scope : Scope)
      (hx : Performs (dropLevelAfter x)
        { m with store := m.store.newFrame scope, depth := m.depth + 1 } inside) :
      Performs (inFrame scope x) m (.newFrame scope :: inside)

/-- What the computation does on the machine continues a history of its store. -/
def Continues {α : Type} (x : Exec α) (m : Machine) (ops : List Op) (scopes : List Scope) : Prop :=
  Session.Continues ops ⟨m.store, scopes⟩ (x.Performs m) fun s =>
    x.Ends m (fun _ m' => m'.store = s) fun _ m' => m'.store = s

/-- What the computation does continues every history of the store. -/
def Lawful {α : Type} (x : Exec α) : Prop :=
  ∀ m ops scopes r, Store.Reached ops ⟨m.store, scopes⟩ r → x.Continues m ops scopes

namespace Continues

variable {α β : Type} {x : Exec α} {m : Machine} {ops : List Op} {scopes : List Scope}
  {r : Lexical}

theorem bind {y : α → Exec β} (hx : x.Continues m ops scopes)
    (hy : ∀ a m' ops' scopes' r', x m = .done a m' → Store.Reached ops' ⟨m'.store, scopes'⟩ r' →
      Session.Extends ⟨m.store, scopes⟩ ⟨m'.store, scopes'⟩ → (y a).Continues m' ops' scopes') :
    (x >>= y).Continues m ops scopes := by
  obtain ⟨first, ⟨s₁, scopes₁⟩, r₁, hperforms, hr₁, hextends, hends⟩ := hx
  cases h : x m with
  | done a m' =>
    obtain rfl : m'.store = s₁ := hends.of_done h
    obtain ⟨second, session₂, r₂, hperforms₂, hr₂, hextends₂, hends₂⟩ :=
      hy a m' _ scopes₁ r₁ h hr₁ hextends
    refine ⟨first ++ second, session₂, r₂, .bind hperforms h hperforms₂, ?_,
      hextends.trans hextends₂, .bind (.intro (fun b m₁ hb => ?_) fun f m₁ hf => ?_)⟩
    · rwa [← List.append_assoc]
    · cases h.symm.trans hb
      exact hends₂
    · cases h.symm.trans hf
  | fault f m' =>
    refine ⟨first, _, r₁, .bindStopped hperforms (by simp [h]), hr₁, hextends,
      .bind (.intro (fun b m₁ hb => ?_) fun f m₁ hf => hends.of_fault hf)⟩
    cases h.symm.trans hb
  | exhausted =>
    refine ⟨first, _, r₁, .bindStopped hperforms (by simp [h]), hr₁, hextends,
      .bind (.intro (fun b m₁ hb => ?_) fun f m₁ hf => hends.of_fault hf)⟩
    cases h.symm.trans hb

/-- To look a function up gives a scope, which is there when all that follows begins. -/
theorem lookupFunction (h : Store.Reached ops ⟨m.store, scopes⟩ r) (name : String)
    {y : Function × Scope → Exec β}
    (hy : ∀ f scope ops' r', Store.Reached ops' ⟨m.store, scope :: scopes⟩ r' →
      (y (f, scope)).Continues m ops' (scope :: scopes)) :
    (lookup (·.lookupFunction name) >>= y).Continues m ops scopes := by
  have hr := h.step (.lookupFunction name) trivial
  cases hf : m.store.lookupFunction name with
  | error e =>
    have hx : lookup (·.lookupFunction name) m = .fault ⟨.store e, m.location⟩ m := by
      simp only [lookup, hf]
      rfl
    simp only [Op.apply, hf] at hr
    refine ⟨[.lookupFunction name], _, _,
      .bindStopped (.lookupFunction name) (by simp [hx]), hr, .refl _, .bind ?_⟩
    exact .lookup (fun a ha => by cases hf.symm.trans ha) fun _ _ => rfl
  | ok found =>
    obtain ⟨f, scope⟩ := found
    have hx : lookup (·.lookupFunction name) m = .done (f, scope) m := by
      simp only [lookup, hf]
    simp only [Op.apply, hf] at hr
    exact (hy f scope _ _ hr).cons (.lookupFunction m.store scopes scope)
      (fun _ hmore => .bind (.lookupFunction name) hx hmore)
      fun _ hends => .bind (.lookup_ok hf hends)

theorem dropLevelAfter {s : Store} {parent : Option Link} (hm : m.store = s.pushLevel parent)
    (hs : ∀ scope ∈ scopes, s.Stands scope) (hx : x.Continues m ops scopes) :
    Session.Continues ops ⟨s, scopes⟩ ((Exec.dropLevelAfter x).Performs m) fun s' =>
      x.Ends m (fun _ m' => m'.store.deleteLevel = s') fun _ m' => m'.store.deleteLevel = s' := by
  unfold Continues at hx
  rw [hm] at hx
  by_cases hstop : x m = .exhausted
  · obtain ⟨inner, session', r', hperforms, hr, hextends, hends⟩ := hx
    refine ⟨inner, session', r', .dropLevelExhausted hperforms hstop, hr,
      (Session.Extends.pushLevel s scopes parent).trans hextends, .intro ?_ ?_⟩
    · exact fun a m' hd => by cases hstop.symm.trans hd
    · exact fun f m' hf => by cases hstop.symm.trans hf
  · exact hx.deleteLevel hs (fun _ hinner => .dropLevel hinner hstop) fun _ hends =>
      hends.mono (fun _ _ he => congrArg Store.deleteLevel he)
        fun _ _ he => congrArg Store.deleteLevel he

theorem onLevel (h : Store.Reached ops ⟨m.store, scopes⟩ r)
    (hx : x.Continues { m with store := m.store.newLevel } (ops ++ [.newLevel]) scopes) :
    (Exec.onLevel x).Continues m ops scopes :=
  (dropLevelAfter (s := m.store) rfl h.represents.2 hx).cons (.refl _) (fun _ => .onLevel)
    fun _ hends => .onLevel hends

theorem inFrame (h : Store.Reached ops ⟨m.store, scopes⟩ r) {scope : Scope}
    (hx : x.Continues { m with store := m.store.newFrame scope, depth := m.depth + 1 }
      (ops ++ [.newFrame scope]) scopes) :
    (Exec.inFrame scope x).Continues m ops scopes :=
  (dropLevelAfter (s := m.store) rfl h.represents.2 hx).cons (.refl _) (fun _ => .inFrame scope)
    fun _ hends => .inFrame scope hends

end Continues

namespace Lawful

variable {α β : Type} {x : Exec α}

theorem idle (hx : ∀ m, x.Performs m [])
    (he : ∀ m, x.Ends m (fun _ m' => m'.store = m.store) fun _ m' => m'.store = m.store) :
    x.Lawful :=
  fun m _ _ _ h => .none h (hx m) (he m)

theorem bind {y : α → Exec β} (hx : x.Lawful) (hy : ∀ a, (y a).Lawful) : (x >>= y).Lawful :=
  fun m ops scopes r h => (hx m ops scopes r h).bind fun a m' ops' scopes' r' _ h' _ =>
    hy a m' ops' scopes' r' h'

theorem onLevel (hx : x.Lawful) : (Exec.onLevel x).Lawful :=
  fun _ _ scopes _ h => .onLevel h (hx _ _ scopes _ (h.step .newLevel trivial))

theorem register (name : String) (entry : Entry) : (update (·.declare name entry)).Lawful :=
  fun _ _ _ _ h => .single h (.register name entry) trivial (.register name entry)
    (.register name entry) (.update_store _)

theorem store (slot : Slot) (v : Value) : (update (·.put slot v)).Lawful :=
  fun _ _ _ _ h => .single h (.store slot v) trivial (.store slot v) (.store slot v)
    (.update_store _)

theorem respected : Respected (fun {α} (x _ : Exec α) => x.Lawful) where
  pure a := .idle (fun _ => .pure a) fun _ => .pure rfl
  fail cause := .idle (fun _ => .fail cause) fun _ => .fail rfl
  bind := bind
  onLevel := onLevel
  resolve name := .idle (fun _ => .resolve name) fun _ => .lookup (fun _ _ => rfl) fun _ _ => rfl
  register name entry _ := register name entry
  setLocation loc := .idle (fun _ => .setLocation loc) fun _ => .setLocation rfl
  write text := .idle (fun _ => .write text) fun _ => .write (fun _ => rfl) fun _ => rfl

theorem load (slot : Slot) : (Exec.load slot).Lawful :=
  .idle (fun _ => .load slot) fun _ => .lookup (fun _ _ => rfl) fun _ _ => rfl

theorem readWord : Exec.readWord.Lawful :=
  .idle (fun _ => .readWord) fun _ => .readWord (fun _ _ => rfl) fun _ _ => rfl

theorem depth : Exec.depth.Lawful :=
  .idle (fun _ => .depth) fun _ => .depth rfl

section Steps

variable {eval : Expr → Exec Evaluated} {exec : Stmt → Exec Signal}

theorem evalValue (he : ∀ e, (eval e).Lawful) (e : Expr) : (Exec.evalValue eval e).Lawful :=
  @Congruent.evalValue _ eval eval respected.toCongruent load he e

theorem evalAll (he : ∀ e, (eval e).Lawful) (es : List Expr) : (Exec.evalAll eval es).Lawful :=
  @Congruent.evalAll _ respected.toCongruent eval eval (evalValue he) es

theorem block (hs : ∀ stmt, (exec stmt).Lawful) (stmts : Block) : (Exec.block exec stmts).Lawful :=
  @Congruent.block _ respected.toCongruent exec exec hs stmts

/-- The scope of the function is still there when the arguments have been evaluated. -/
theorem call (he : ∀ e, (eval e).Lawful) (hs : ∀ stmt, (exec stmt).Lawful) (limit : Nat)
    (name : String) (args : List Expr) : (Exec.call limit eval exec name args).Lawful := by
  intro m ops scopes r h
  refine .lookupFunction h name fun f scope ops' r' h' => ?_
  dsimp only
  split
  · refine (evalAll he args m _ _ _ h').bind fun values m₁ ops₁ scopes₁ r₁ _ h₁ hextends₁ => ?_
    refine (depth m₁ _ _ _ h₁).bind fun calls m₂ ops₂ scopes₂ r₂ _ h₂ hextends₂ => ?_
    split
    · exact respected.fail _ m₂ _ _ _ h₂
    · have hscope := (hextends₁.trans hextends₂).scopes scope List.mem_cons_self
      have hbody := @Congruent.body _ respected.toCongruent exec exec hs name f values
      have hframe := Continues.inFrame h₂ (hbody _ _ _ _ (h₂.step (.newFrame scope) hscope))
      refine hframe.bind fun returned m₃ ops₃ scopes₃ r₃ _ h₃ _ => ?_
      exact respected.result f.returns returned m₃ _ _ _ h₃
  · exact respected.fail _ m _ _ _ h'

theorem compared (he : ∀ e, (eval e).Lawful) (hs : ∀ stmt, (exec stmt).Lawful)
    (limit n : Nat) :
    Compared (fun {α} (x _ : Exec α) => x.Lawful) limit limit n n eval eval exec exec where
  expr := he
  stmt := hs
  value := evalValue he
  index := @Congruent.index _ eval eval respected.toCongruent load he
  assign := @Congruent.assign _ eval eval respected.toCongruent load store he
  readInto := @Congruent.readInto _ eval eval respected.toCongruent load store readWord he
  call := call he hs limit
  repeatWhile loc c c' b b' hc hb :=
    @Respected.repeatWhile _ respected loc c c' b b' 0
      (.idle (fun _ => .exhausted) fun _ => .exhausted) hc hb n

end Steps

end Lawful

end Exec

open Exec in
theorem eval_exec_lawful (limit n : Nat) :
    (∀ e, (Expr.eval limit n e).Lawful) ∧ ∀ stmt, (Stmt.exec limit n stmt).Lawful := by
  induction n with
  | zero =>
    exact ⟨fun _ => .idle (fun _ => .exhausted) fun _ => .exhausted,
      fun _ => .idle (fun _ => .exhausted) fun _ => .exhausted⟩
  | succ n ih =>
    have hc := Lawful.compared ih.1 ih.2 limit n
    exact ⟨Lawful.respected.evalStep hc, Lawful.respected.execStep hc⟩

/-- A run on any store goes on with its history. -/
theorem Machine.run_lawful (limit steps : Nat) (program : Block) :
    Exec.Lawful (Machine.run limit steps program) := by
  rw [Machine.run_eq]
  have hblock := Exec.Lawful.block (eval_exec_lawful limit steps).2 program
  refine hblock.bind fun _ => .idle (fun _ => .flush) fun m => ?_
  unfold Exec.Ends Exec.flush
  cases m.output.flushes <;> rfl

namespace Check

/-- The same for a checker. Among all that it asks, only to look a function up counts as an
operation. -/
inductive Performs : ∀ {α : Type}, Check α → Checker → List Op → Prop
  | pure (a : α) : Performs (Pure.pure a) c []
  | ask (f : Checker → Except SemanticError α) : Performs (ask f) c []
  | setLocation (loc : Location) : Performs (setLocation loc) c []
  | lookupFunction (name : String) :
      Performs (Check.ask fun c => liftStore (c.store.lookupFunction name)) c
        [.lookupFunction name]
  | register (name : String) (entry : Entry) :
      Performs (register name entry) c [.register name entry]
  | bind {x : Check α} {y : α → Check β} (hx : Performs x c first) (h : x c = (.ok a, c'))
      (hy : Performs (y a) c' second) : Performs (x >>= y) c (first ++ second)
  | bindStopped {x : Check α} {y : α → Check β} (hx : Performs x c first)
      (h : x c = (.error fault, c')) : Performs (x >>= y) c first
  | onLevel {x : Check α} (hx : Performs x { c with store := c.store.newLevel } inside) :
      Performs (onLevel x) c (.newLevel :: inside ++ [.deleteLevel])
  | inFunction {x : Check α} (scope : Scope) (returns : Ty)
      (hx : Performs x { c with store := c.store.newFrame scope, returns := some returns } inside) :
      Performs (inFunction scope returns x) c (.newFrame scope :: inside ++ [.deleteLevel])

/-- What the checker does continues a history of its store. -/
def Continues {α : Type} (x : Check α) (c : Checker) (ops : List Op) (scopes : List Scope) :
    Prop :=
  Session.Continues ops ⟨c.store, scopes⟩ (x.Performs c) fun s => (x c).2.store = s

def Lawful {α : Type} (x : Check α) : Prop :=
  ∀ c ops scopes r, Store.Reached ops ⟨c.store, scopes⟩ r → x.Continues c ops scopes

namespace Continues

variable {α β : Type} {x : Check α} {c : Checker} {ops : List Op} {scopes : List Scope}
  {r : Lexical}

theorem bind {y : α → Check β} (hx : x.Continues c ops scopes)
    (hy : ∀ a, (y a).Lawful) : (x >>= y).Continues c ops scopes := by
  obtain ⟨first, ⟨s₁, scopes₁⟩, r₁, hperforms, hr₁, hextends, hends⟩ := hx
  cases h : x c with
  | mk result c' =>
    obtain rfl : c'.store = s₁ := by
      rw [h] at hends
      exact hends
    cases result with
    | ok a =>
      obtain ⟨second, session₂, r₂, hperforms₂, hr₂, hextends₂, hends₂⟩ :=
        hy a c' _ scopes₁ r₁ hr₁
      refine ⟨first ++ second, session₂, r₂, .bind hperforms h hperforms₂, ?_,
        hextends.trans hextends₂, ?_⟩
      · rwa [← List.append_assoc]
      · rw [bind_ok h]
        exact hends₂
    | error fault =>
      refine ⟨first, _, r₁, .bindStopped hperforms h, hr₁, hextends, ?_⟩
      rw [bind_error h]

theorem lookupFunction (h : Store.Reached ops ⟨c.store, scopes⟩ r) (name : String)
    {y : Function × Scope → Check β}
    (hy : ∀ f scope ops' r', Store.Reached ops' ⟨c.store, scope :: scopes⟩ r' →
      (y (f, scope)).Continues c ops' (scope :: scopes)) :
    ((ask fun c => liftStore (c.store.lookupFunction name)) >>= y).Continues c ops scopes := by
  have hr := h.step (.lookupFunction name) trivial
  cases hf : c.store.lookupFunction name with
  | error e =>
    have hx : ask (fun c => liftStore (c.store.lookupFunction name)) c =
        (.error ⟨.store e, c.location⟩, c) :=
      ask_error (by rw [hf]; rfl)
    simp only [Op.apply, hf] at hr
    refine ⟨[.lookupFunction name], _, _, .bindStopped (.lookupFunction name) hx, hr, .refl _, ?_⟩
    rw [bind_error hx]
  | ok found =>
    obtain ⟨f, scope⟩ := found
    have hx : ask (fun c => liftStore (c.store.lookupFunction name)) c = (.ok (f, scope), c) :=
      ask_ok (by rw [hf]; rfl)
    simp only [Op.apply, hf] at hr
    refine (hy f scope _ _ hr).cons (.lookupFunction c.store scopes scope)
      (fun _ hmore => .bind (.lookupFunction name) hx hmore) fun _ hends => ?_
    rw [bind_ok hx]
    exact hends

end Continues

namespace Lawful

variable {α β : Type} {x : Check α}

theorem pure (a : α) : (Pure.pure a : Check α).Lawful :=
  fun _ _ _ _ h => .none h (.pure a) rfl

theorem ask (f : Checker → Except SemanticError α) : (Check.ask f).Lawful := by
  refine fun c _ _ _ h => .none h (.ask f) ?_
  unfold Check.ask
  cases f c <;> rfl

theorem setLocation (loc : Location) : (Check.setLocation loc).Lawful :=
  fun _ _ _ _ h => .none h (.setLocation loc) rfl

theorem register (name : String) (entry : Entry) : (Check.register name entry).Lawful := by
  refine fun c ops scopes r h => .single h (.register name entry) trivial (.register name entry)
    (.register name entry) ?_
  unfold Check.register
  simp only [Op.apply]
  generalize c.store.declare name entry = outcome
  obtain ⟨result, s⟩ := outcome
  cases result <;> rfl

theorem bind {y : α → Check β} (hx : x.Lawful) (hy : ∀ a, (y a).Lawful) : (x >>= y).Lawful :=
  fun c ops scopes r h => (hx c ops scopes r h).bind hy

theorem onLevel (hx : x.Lawful) : (Check.onLevel x).Lawful := by
  intro c ops scopes r h
  have hinner := hx { c with store := c.store.newLevel } _ scopes _ (h.step .newLevel trivial)
  have hlevel : Session.Continues (ops ++ [.newLevel]) ⟨c.store, scopes⟩
      (fun more => (Check.onLevel x).Performs c (.newLevel :: more))
      fun s => (Check.onLevel x c).2.store = s :=
    hinner.deleteLevel h.represents.2 (fun _ => .onLevel) fun _ => congrArg Store.deleteLevel
  exact hlevel.cons (.refl _) (fun _ => id) fun _ => id

/-- The scope was looked up before. -/
theorem inFunction (hx : x.Lawful) {c : Checker} {ops : List Op} {scopes : List Scope}
    {r : Lexical} (h : Store.Reached ops ⟨c.store, scopes⟩ r) {scope : Scope}
    (hs : scope ∈ scopes) (returns : Ty) :
    (Check.inFunction scope returns x).Continues c ops scopes := by
  have hinner := hx { c with store := c.store.newFrame scope, returns := some returns } _ scopes _
    (h.step (.newFrame scope) hs)
  have hlevel : Session.Continues (ops ++ [.newFrame scope]) ⟨c.store, scopes⟩
      (fun more => (Check.inFunction scope returns x).Performs c (.newFrame scope :: more))
      fun s => (Check.inFunction scope returns x c).2.store = s :=
    hinner.deleteLevel h.represents.2 (fun _ => .inFunction scope returns)
      fun _ => congrArg Store.deleteLevel
  exact hlevel.cons (.refl _) (fun _ => id) fun _ => id

theorem bindParams (params : List Param) : (Check.bindParams params).Lawful := by
  induction params with
  | nil => exact pure ()
  | cons p params ih => exact .bind (.register _ _) fun _ => ih

end Lawful

end Check

open Check

mutual

theorem Stmt.analyze_lawful (stmt : Stmt) : stmt.analyze.Lawful := by
  match stmt with
  | .declare _ _ _ _ =>
    exact .bind (.setLocation _) fun _ => .bind (.ask _) fun _ => .register _ _
  | .define _ name params returns body =>
    refine .bind (.setLocation _) fun _ => .bind (.ask _) fun _ => .bind (.register _ _) fun _ => ?_
    refine fun c ops scopes r h => .lookupFunction h name fun f scope ops' r' h' => ?_
    have hbody := Lawful.bind (.bindParams params) fun _ => (Stmt.analyzeAll_lawful body).onLevel
    exact hbody.inFunction h' List.mem_cons_self returns
  | .expr _ _ => exact .bind (.setLocation _) fun _ => .bind (.ask _) fun _ => .pure _
  | .return _ _ | .print _ _ | .read _ _ => exact .bind (.setLocation _) fun _ => .ask _
  | .cond _ _ thenBlock none =>
    refine .bind (.setLocation _) fun _ => .bind (.ask _) fun _ => ?_
    exact .bind (Stmt.analyzeAll_lawful thenBlock).onLevel fun _ => .pure _
  | .cond _ _ thenBlock (some elseBlock) =>
    refine .bind (.setLocation _) fun _ => .bind (.ask _) fun _ => ?_
    exact .bind (Stmt.analyzeAll_lawful thenBlock).onLevel fun _ =>
      (Stmt.analyzeAll_lawful elseBlock).onLevel
  | .while _ _ body =>
    refine .bind (.setLocation _) fun _ => .bind (.ask _) fun _ => ?_
    exact (Stmt.analyzeAll_lawful body).onLevel
  | .for _ _ _ body =>
    refine .bind (.setLocation _) fun _ => .bind (.ask _) fun _ => ?_
    exact .onLevel (.bind (.register _ _) fun _ => (Stmt.analyzeAll_lawful body).onLevel)

theorem Stmt.analyzeAll_lawful (stmts : List Stmt) : (Stmt.analyzeAll stmts).Lawful := by
  match stmts with
  | [] => exact .pure _
  | stmt :: stmts =>
    exact .bind (Stmt.analyze_lawful stmt) fun _ => Stmt.analyzeAll_lawful stmts

end

/-- To check a program on any store goes on with its history. -/
theorem Block.analyze_lawful (block : Block) : block.analyze.Lawful :=
  (Stmt.analyzeAll_lawful block).onLevel

end Offside
