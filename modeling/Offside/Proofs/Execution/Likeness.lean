import Offside.Proofs.Execution.Comparison
import Offside.Proofs.Execution.Targets

/-!
Machines that are alike. The store of the second one is that of the first one, recast so that
nothing in sight has another value. Whatever is executed, both go the same way and are alike again
at the end: a name that comes into sight is bound in both, and a function that is called sees
nothing but what was in sight.
-/

namespace Offside

/-- Why a computation could not go on is that the output failed. -/
def Outcome.Lost {α : Type} : Outcome α → Prop
  | .fault f _ => ∃ e, f.cause = .output e
  | _ => False

/-- Two computations end in the same way, with the same result or the same fault, on machines that
are related. If `lax`, nothing is said when the output of one of them failed. -/
inductive Outcome.Both (R : Machine → Machine → Prop) (lax : Prop) {α : Type} :
    Outcome α → Outcome α → Prop
  | done (a : α) {m m' : Machine} (h : R m m') : Both R lax (.done a m) (.done a m')
  | fault (f : RuntimeFault) {m m' : Machine} (h : R m m') : Both R lax (.fault f m) (.fault f m')
  | exhausted : Both R lax .exhausted .exhausted
  | lost {o o' : Outcome α} (h : lax) (ho : o.Lost ∨ o'.Lost) : Both R lax o o'

/-- In what two machines may differ. Related outputs take the same texts, unless `lax`. -/
structure Likeness where
  recast : Recast
  outputs : Output → Output → Prop
  lax : Prop
  write : ∀ {o o' : Output} (text : String), outputs o o' →
    (o.write text).1 = (o'.write text).1 ∧ outputs (o.write text).2 (o'.write text).2 ∨
      lax ∧ ((o.write text).1 = false ∨ (o'.write text).1 = false)

namespace Likeness

/-- The machines are the same but for the recast of the store and for the output. -/
structure Matches (l : Likeness) (m m' : Machine) : Prop where
  store : m'.store = l.recast.store m.store
  input : m'.input = m.input
  outputs : l.outputs m.output m'.output
  depth : m'.depth = m.depth
  location : m'.location = m.location

/-- What is executed next does not find a difference. -/
structure Alike (l : Likeness) (m m' : Machine) : Prop where
  same : l.Matches m m'
  valid : m.store.Valid
  opened : 0 < m.store.depth
  spares : l.recast.Spares m.store

variable {l : Likeness} {m m' m₁ m₁' : Machine}

namespace Matches

theorem deleteLevel (h : l.Matches m m') :
    l.Matches { m with store := m.store.deleteLevel } { m' with store := m'.store.deleteLevel } :=
  ⟨by simp only [h.store, Recast.deleteLevel_store], h.input, h.outputs, h.depth, h.location⟩

theorem leave (h : l.Matches m m') (location : Option Location) :
    l.Matches (m.leave location) (m'.leave location) :=
  ⟨h.store, h.input, h.outputs, by simp only [Machine.leave, h.depth], rfl⟩

theorem newFrame (h : l.Matches m m') (scope : Scope) :
    l.Matches { m with store := m.store.newFrame scope, depth := m.depth + 1 }
      { m' with store := m'.store.newFrame (l.recast.scope scope), depth := m'.depth + 1 } :=
  ⟨by simp only [h.store, Recast.newFrame_store], h.input, h.outputs, by simp only [h.depth],
    h.location⟩

end Matches

namespace Alike

/-- As long as no level is opened or dropped, the same is in sight. -/
theorem keeps (h : l.Alike m m') (h₁ : l.Matches m₁ m₁') (hk : m.Keeps m₁) : l.Alike m₁ m₁' :=
  ⟨h₁, hk.valid h.valid, hk.depth_pos h.opened, h.spares.of_shape hk.shape hk.count⟩

theorem newLevel (h : l.Alike m m') :
    l.Alike { m with store := m.store.newLevel } { m' with store := m'.store.newLevel } where
  same := ⟨by simp only [h.same.store, Recast.newLevel_store], h.same.input, h.same.outputs,
    h.same.depth, h.same.location⟩
  valid := h.valid.newLevel
  opened := by simp
  spares := h.spares.newLevel h.opened

theorem extend (h : l.Alike m m') {name : String} (hn : name ∉ m.store.locals) (entry : Entry) :
    l.Alike { m with store := m.store.extend name entry }
      { m' with store := m'.store.extend name entry } where
  same := by
    have he := Recast.extend_store (h.spares.unbound _ (Nat.le_refl _)) name entry
    exact ⟨by simp only [h.same.store, he], h.same.input, h.same.outputs, h.same.depth,
      h.same.location⟩
  valid := h.valid.extend h.opened hn entry
  opened := by simpa using h.opened
  spares := h.spares.extend h.valid h.opened name entry

end Alike

end Likeness

namespace Outcome.Both

open Exec Likeness

variable {α β : Type} {R R' : Machine → Machine → Prop} {lax : Prop} {l : Likeness}
  {o o' : Outcome α} {m m' : Machine} {x x' : Exec α}

theorem imp (h : Both R lax o o') (hR : ∀ {m₁ m₁' : Machine}, R m₁ m₁' → R' m₁ m₁') :
    Both R' lax o o' := by
  cases h with
  | done a h => exact .done a (hR h)
  | fault f h => exact .fault f (hR h)
  | exhausted => exact .exhausted
  | lost h ho => exact .lost h ho

theorem same (h : Both l.Alike lax o o') : Both l.Matches lax o o' :=
  h.imp fun h => h.same

/-- What is known of the first machine at the end may be used to relate both. -/
theorem ends {Q : Machine → Prop} (h : Both R lax (x m) (x' m'))
    (hx : x.Ends m (fun _ m₁ => Q m₁) fun _ m₁ => Q m₁)
    (hR : ∀ {m₁ m₁' : Machine}, R m₁ m₁' → Q m₁ → R' m₁ m₁') : Both R' lax (x m) (x' m') := by
  unfold Ends at hx
  generalize x m = outcome at h hx
  generalize x' m' = outcome' at h
  cases h with
  | done a h => exact .done a (hR h hx)
  | fault f h => exact .fault f (hR h hx)
  | exhausted => exact .exhausted
  | lost h ho => exact .lost h ho

theorem bind {y y' : α → Exec β} (h : Both R lax (x m) (x' m'))
    (hy : ∀ {a : α} {m₁ m₁' : Machine}, x m = .done a m₁ → R m₁ m₁' →
      Both R lax (y a m₁) (y' a m₁')) : Both R lax ((x >>= y) m) ((x' >>= y') m') := by
  change Both R lax (Exec.bind x y m) (Exec.bind x' y' m')
  unfold Exec.bind
  generalize hx : x m = outcome at h
  generalize x' m' = outcome' at h
  cases h with
  | done a h => exact hy hx h
  | fault f h => exact .fault f h
  | exhausted => exact .exhausted
  | lost h ho =>
    refine .lost h (ho.imp (fun ho => ?_) fun ho => ?_)
    · cases outcome with
      | fault f m₁ => exact ho
      | _ => exact ho.elim
    · cases outcome' with
      | fault f m₁ => exact ho
      | _ => exact ho.elim

theorem dropLevelAfter (h : Both l.Matches lax (x m) (x' m')) :
    Both l.Matches lax (Exec.dropLevelAfter x m) (Exec.dropLevelAfter x' m') := by
  unfold Exec.dropLevelAfter
  generalize x m = outcome at h
  generalize x' m' = outcome' at h
  cases h with
  | done a h => exact .done a h.deleteLevel
  | fault f h => exact .fault f h.deleteLevel
  | exhausted => exact .exhausted
  | lost h ho =>
    refine .lost h (ho.imp (fun ho => ?_) fun ho => ?_)
    · cases outcome <;> exact ho
    · cases outcome' <;> exact ho

theorem inFrame {scope scope' : Scope} (hl : m'.location = m.location)
    (h : Both l.Matches lax
      (Exec.dropLevelAfter x { m with store := m.store.newFrame scope, depth := m.depth + 1 })
      (Exec.dropLevelAfter x'
        { m' with store := m'.store.newFrame scope', depth := m'.depth + 1 })) :
    Both l.Matches lax (Exec.inFrame scope x m) (Exec.inFrame scope' x' m') := by
  unfold Exec.inFrame
  generalize Exec.dropLevelAfter x _ = outcome at h
  generalize Exec.dropLevelAfter x' _ = outcome' at h
  rw [hl]
  cases h with
  | done a h => exact .done a (h.leave _)
  | fault f h => exact .fault f (h.leave _)
  | exhausted => exact .exhausted
  | lost h ho =>
    refine .lost h (ho.imp (fun ho => ?_) fun ho => ?_)
    · cases outcome <;> exact ho
    · cases outcome' <;> exact ho

theorem fail (h : l.Alike m m') (cause : RuntimeError) :
    Both l.Alike lax ((Exec.fail cause : Exec α) m) ((Exec.fail cause : Exec α) m') := by
  unfold Exec.fail
  rw [h.same.location]
  exact .fault _ h

theorem lookup (h : l.Alike m m') {f : Store → Except StoreError α}
    (hf : f m'.store = f m.store) : Both l.Alike lax (Exec.lookup f m) (Exec.lookup f m') := by
  unfold Exec.lookup
  rw [hf]
  cases f m.store with
  | ok a => exact .done a h
  | error e => exact .fail h _

theorem load (h : l.Alike m m') {slot : Slot} (hs : m.store.Shows slot) :
    Both l.Alike lax (Exec.load slot m) (Exec.load slot m') := by
  refine .lookup h ?_
  rw [h.same.store, Recast.load_store h.valid h.spares hs]

theorem valueOf (h : l.Alike m m') {ev : Evaluated}
    (hs : ∀ slot, ev = .slot slot → m.store.Shows slot) :
    Both l.Alike lax (Exec.valueOf ev m) (Exec.valueOf ev m') := by
  cases ev with
  | slot slot => exact .load h (hs slot rfl)
  | value v => exact .done v h

theorem store (h : l.Alike m m') {slot : Slot} (hs : m.store.Shows slot) (value : Value) :
    Both l.Alike lax (Exec.update (·.put slot value) m)
      (Exec.update (·.put slot value) m') := by
  rw [update_eq (.put slot value), update_eq (.put slot value), h.same.store, Recast.store_store h.valid h.spares hs]
  cases hw : m.store.store slot value with
  | error e => exact .fail h _
  | ok s =>
    obtain ⟨hshape, hid⟩ := Store.shape_store hw
    exact .done () (h.keeps ⟨rfl, h.same.input, h.same.outputs, h.same.depth, h.same.location⟩
      ⟨hshape, Nat.le_of_eq hid.symm, rfl⟩)

theorem readWord (h : l.Alike m m') : Both l.Alike lax (Exec.readWord m) (Exec.readWord m') := by
  have taken (input : Input) :
      l.Alike { m with input := input } { m' with input := input } :=
    ⟨⟨h.same.store, rfl, h.same.outputs, h.same.depth, h.same.location⟩, h.valid, h.opened,
      h.spares⟩
  unfold Exec.readWord
  rw [h.same.input]
  match m.input.word with
  | (.ok word, input) => exact .done word (taken input)
  | (.error e, input) => exact .fail (taken input) _

end Outcome.Both

namespace Likeness

open Exec Outcome

/-- From machines that are alike, both computations go the same way. -/
structure Likewise (l : Likeness) {α : Type} (x x' : Exec α) : Prop where
  contained : x.Contained
  ends : ∀ {m m' : Machine}, l.Alike m m' → Both l.Alike l.lax (x m) (x' m')

namespace Likewise

variable {l : Likeness} {α : Type} {x x' : Exec α}

theorem onLevel (h : l.Likewise x x') : l.Likewise (Exec.onLevel x) (Exec.onLevel x') where
  contained := h.contained.onLevel.contained
  ends {m m'} hm := by
    have hx := (h.ends hm.newLevel).same.dropLevelAfter
    exact Both.ends hx (h.contained.onLevel m) fun h₁ hk => hm.keeps h₁ hk

theorem register (name : String) (entry : Entry) :
    l.Likewise (update (·.declare name entry)) (update (·.declare name entry)) where
  contained := .register name entry
  ends {m m'} hm := by
    have hunbound := hm.spares.unbound _ (Nat.le_refl _)
    rw [update_eq (.declare name entry), update_eq (.declare name entry), hm.same.store, Recast.register_store hm.opened hunbound, Store.register_eq hm.opened]
    by_cases hn : name ∈ m.store.locals
    · rw [if_pos hn]
      exact .fail hm _
    · rw [if_neg hn]
      have he := hm.extend hn entry
      rw [hm.same.store, Recast.extend_store hunbound] at he
      exact .done () he

theorem write (text : String) : l.Likewise (Exec.write text) (Exec.write text) where
  contained := (Tidy.write text).contained
  ends {m m'} hm := by
    have hw := l.write text hm.same.outputs
    unfold Exec.write
    generalize m.output.write text = o at hw
    generalize m'.output.write text = o' at hw
    obtain ⟨ok, o⟩ := o
    obtain ⟨ok', o'⟩ := o'
    obtain ⟨rfl, ho⟩ | ⟨hlax, hok⟩ := hw
    · have hwritten : l.Alike { m with output := o } { m' with output := o' } :=
        ⟨⟨hm.same.store, hm.same.input, ho, hm.same.depth, hm.same.location⟩, hm.valid,
          hm.opened, hm.spares⟩
      cases ok with
      | true => exact .done () hwritten
      | false => exact .fail hwritten _
    · refine .lost hlax (hok.imp (fun hok => ?_) fun hok => ?_)
      · cases hok
        exact ⟨.full, rfl⟩
      · cases hok
        exact ⟨.full, rfl⟩

theorem respected : Respected (fun {α} => Likewise l (α := α)) where
  pure a := ⟨(Tidy.pure a).contained, fun hm => .done a hm⟩
  fail cause := ⟨(Tidy.fail cause).contained, fun hm => .fail hm cause⟩
  bind h hy := ⟨h.contained.bind fun a => (hy a).contained,
    fun hm => .bind (h.ends hm) fun _ hm₁ => (hy _).ends hm₁⟩
  onLevel h := h.onLevel
  resolve name := ⟨(Tidy.lookup _).contained,
    fun hm => .lookup hm (by rw [hm.same.store, Recast.resolve_store])⟩
  register name entry _ := register name entry
  setLocation loc := ⟨(Tidy.setLocation loc).contained,
    fun hm => .done () ⟨⟨hm.same.store, hm.same.input, hm.same.outputs, hm.same.depth, rfl⟩,
      hm.valid, hm.opened, hm.spares⟩⟩
  write := write

/-- The machines need be alike in the frame only. -/
theorem inFrame (h : l.Likewise x x') {m m' : Machine} (hm : l.Matches m m') {scope : Scope}
    (hv : (m.store.newFrame scope).Valid) (hs : l.recast.Spares (m.store.newFrame scope)) :
    Both l.Matches l.lax (Exec.inFrame scope x m)
      (Exec.inFrame (l.recast.scope scope) x' m') := by
  have hx := h.ends ⟨hm.newFrame scope, hv, by simp, hs⟩
  exact .inFrame hm.location hx.same.dropLevelAfter

section Steps

variable {limit n : Nat} {eval : Expr → Exec Evaluated} {exec : Stmt → Exec Signal}
  (he : ∀ e, l.Likewise (eval e) (eval e)) (ht : ∀ e, (eval e).Tidy)
  (hl : ∀ e, (eval e).Locates)

include he ht hl

theorem evalValue (e : Expr) : l.Likewise (evalValue eval e) (evalValue eval e) where
  contained := (Tidy.closed.evalValue ht e).contained
  ends {m m'} hm := by
    refine .bind ((he e).ends hm) fun {ev m₁ m₁'} hev hm₁ => ?_
    exact .valueOf hm₁ ((hl e m).of_done hev)

theorem index (lhs rhs : Expr) : l.Likewise (index eval lhs rhs) (index eval lhs rhs) where
  contained := (Tidy.closed.index ht lhs rhs).contained
  ends {m m'} hm := by
    refine .bind ((he lhs).ends hm) fun {container m₁ m₁'} hc hm₁ => ?_
    refine .bind ((evalValue he ht hl rhs).ends hm₁) fun {v m₂ m₂'} hv hm₂ => ?_
    cases v.asNumber? with
    | none => exact .fail hm₂ _
    | some i =>
      have hk := (Tidy.closed.evalValue ht rhs m₁).of_done hv
      have hs (slot : Slot) (h : container = .slot slot) : m₂.store.Shows slot :=
        ((hl lhs m).of_done hc slot h).of_shape hk.shape
      dsimp only
      rw [element_eq]
      exact .bind (.valueOf hm₂ hs) fun {v m₃ m₃'} _ hm₃ => (respected.ofExcept _).ends hm₃

theorem assign (lhs : Expr) (base : Option Operation) (rhs : Expr) :
    l.Likewise (assign eval lhs base rhs) (assign eval lhs base rhs) where
  contained := (Tidy.closed.assign ht lhs base rhs).contained
  ends {m m'} hm := by
    refine .bind ((he lhs).ends hm) fun {ev m₁ m₁'} hev hm₁ => ?_
    cases ev with
    | value v => exact .bind (.fail hm₁ _) fun hf => nomatch hf
    | slot target =>
      refine .bind (.done target hm₁) fun hpure hm₁ => ?_
      cases hpure
      refine .bind ((evalValue he ht hl rhs).ends hm₁) fun {v m₂ m₂'} hv hm₂ => ?_
      have hk := (Tidy.closed.evalValue ht rhs m₁).of_done hv
      have hs := ((hl lhs m).of_done hev target rfl).of_shape hk.shape
      have stored (w : Value) {m₃ m₃' : Machine} (hm₃ : l.Alike m₃ m₃')
          (hs₃ : m₃.store.Shows target) :
          Both l.Alike l.lax ((update (·.put target w) >>= fun _ => Pure.pure (.slot target)) m₃)
            ((update (·.put target w) >>= fun _ => Pure.pure (Evaluated.slot target)) m₃') :=
        .bind (.store hm₃ hs₃ w) fun _ hm₄ => .done _ hm₄
      cases base with
      | none =>
        refine .bind (.done v hm₂) fun hpure hm₂ => ?_
        cases hpure
        exact stored v hm₂ hs
      | some op =>
        refine .bind (.load hm₂ hs) fun {old m₃ m₃'} hold hm₃ => ?_
        have hs₃ := hs.of_shape ((Tidy.closed.load target m₂).of_done hold).shape
        refine .bind ((respected.ofExcept _).ends hm₃) fun {w m₄ m₄'} hw hm₄ => ?_
        obtain ⟨-, rfl⟩ := ofExcept_done hw
        exact stored w hm₄ hs₃

theorem readInto (target : Expr) : l.Likewise (readInto eval target) (readInto eval target) where
  contained := (Tidy.closed.readInto ht target).contained
  ends {m m'} hm := by
    refine .bind ((he target).ends hm) fun {ev m₁ m₁'} hev hm₁ => ?_
    cases ev with
    | value v => exact .bind (.fail hm₁ _) fun hf => nomatch hf
    | slot slot =>
      refine .bind (.done slot hm₁) fun hpure hm₁ => ?_
      cases hpure
      have hs := (hl target m).of_done hev slot rfl
      refine .bind (.load hm₁ hs) fun {old m₂ m₂'} hold hm₂ => ?_
      have hs₂ := hs.of_shape ((Tidy.closed.load slot m₁).of_done hold).shape
      refine .bind (.readWord hm₂) fun {word m₃ m₃'} hword hm₃ => ?_
      have hs₃ := hs₂.of_shape ((Tidy.readWord m₂).of_done hword).shape
      refine .bind ((respected.ofExcept _).ends hm₃) fun {new m₄ m₄'} hnew hm₄ => ?_
      obtain ⟨-, rfl⟩ := ofExcept_done hnew
      exact .store hm₄ hs₃ new

/-- Both find the same function, and its frame sees nothing that differs. -/
theorem call (hs : ∀ stmt, l.Likewise (exec stmt) (exec stmt)) (name : String)
    (args : List Expr) :
    l.Likewise (call limit eval exec name args) (call limit eval exec name args) where
  contained :=
    (Tidy.closed.call ht (tidy_frame fun stmt => (hs stmt).contained) name args).contained
  ends {m m'} hm := by
    have hlookup := Recast.lookupFunction_store l.recast m.store name
    rw [← hm.same.store] at hlookup
    unfold Exec.call
    cases hf : m.store.lookupFunction name with
    | error e =>
      rw [hf] at hlookup
      rw [lookup_bind_error hf, lookup_bind_error hlookup]
      exact .fail hm _
    | ok found =>
      obtain ⟨f, scope⟩ := found
      rw [hf] at hlookup
      rw [lookup_bind_ok hf, lookup_bind_ok hlookup]
      dsimp only
      split
      · have hargs := respected.evalAll (evalValue he ht hl) args
        refine .bind (hargs.ends hm) fun {values m₁ m₁'} hvalues hm₁ => ?_
        have hk := (Tidy.closed.evalAll ht args m).of_done hvalues
        have hf₁ : m₁.store.lookupFunction name = .ok (f, scope) := by
          rw [Store.lookupFunction_of_shape hk.shape, hf]
        have hdepth : Both l.Alike l.lax (Exec.depth m₁) (Exec.depth m₁') := by
          unfold Exec.depth
          rw [hm₁.same.depth]
          exact .done _ hm₁
        refine .bind hdepth fun {depth m₂ m₂'} hd hm₂ => ?_
        cases hd
        split
        · exact .fail hm₂ _
        · have hbody := respected.body hs name f values
          have hvalid := hm₁.valid.newFrame (Store.lt_depth_of_lookupFunction hm₁.valid hf₁)
          have hspares := hm₁.spares.newFrame hm₁.valid hf₁
          refine .bind (Both.ends (hbody.inFrame hm₂.same hvalid hspares)
            (hbody.contained.inFrame scope m₁) fun h₁ hk => hm₂.keeps h₁ hk) fun _ hm₃ => ?_
          exact (respected.result f.returns _).ends hm₃
      · exact .fail hm _

theorem compared (limit n : Nat) (hs : ∀ stmt, l.Likewise (exec stmt) (exec stmt)) :
    Compared (fun {α} => Likewise l (α := α)) limit limit n n eval eval exec exec where
  expr := he
  stmt := hs
  value := evalValue he ht hl
  index := index he ht hl
  assign := assign he ht hl
  readInto := readInto he ht hl
  call := call he ht hl hs
  repeatWhile loc condition condition' body body' hc hb := by
    have hstop : l.Likewise exhausted (repeatWhile loc condition' body' 0) :=
      ⟨Tidy.exhausted.contained, fun _ => .exhausted⟩
    exact respected.repeatWhile hstop hc hb n

end Steps

end Likewise

theorem eval_exec_likewise (l : Likeness) (limit n : Nat) :
    (∀ e, l.Likewise (Expr.eval limit n e) (Expr.eval limit n e)) ∧
      ∀ stmt, l.Likewise (Stmt.exec limit n stmt) (Stmt.exec limit n stmt) := by
  induction n with
  | zero =>
    exact ⟨fun _ => ⟨Tidy.exhausted.contained, fun _ => .exhausted⟩,
      fun _ => ⟨Tidy.exhausted.contained, fun _ => .exhausted⟩⟩
  | succ n ih =>
    have hc := Likewise.compared ih.1 (fun e => e.eval_tidy limit n)
      (fun e => e.eval_locates limit n) limit n ih.2
    exact ⟨fun e => Likewise.respected.evalStep hc e,
      fun stmt => Likewise.respected.execStep hc stmt⟩

/-- Machines that are alike execute a statement alike. -/
theorem exec_likewise (l : Likeness) (limit n : Nat) (stmt : Stmt) :
    l.Likewise (Stmt.exec limit n stmt) (Stmt.exec limit n stmt) :=
  (l.eval_exec_likewise limit n).2 stmt

end Likeness

end Offside
