import Offside.Proofs.Typing.Checks
import Offside.Proofs.Typing.Resemblance
import Offside.Typing.Checker

/-!
What a checker leaves behind, and its verdicts. A checker takes back all that it opened and bound,
whether it accepts or rejects; only the number of the next binding is greater afterwards. Its
verdicts are those of the typing rules, which know nothing of levels that are opened and dropped. So
a checker that was used gives the same verdicts as a new one.
-/

namespace Offside

/-- The levels and the function around are as before. -/
structure Checker.Keeps (c c' : Checker) : Prop where
  levels : c'.store.levels = c.store.levels
  count : c.store.nextId ≤ c'.store.nextId
  returns : c'.returns = c.returns

/-- The same, except for what is bound on the innermost level. -/
structure Checker.KeepsOuter (c c' : Checker) : Prop where
  levels : c'.store.levels.pop = c.store.levels.pop
  depth : c'.store.depth = c.store.depth
  count : c.store.nextId ≤ c'.store.nextId
  returns : c'.returns = c.returns

namespace Checker

variable {c c' c'' : Checker}

theorem Keeps.trans (h : c.Keeps c') (h' : c'.Keeps c'') : c.Keeps c'' :=
  ⟨h'.levels.trans h.levels, Nat.le_trans h.count h'.count, h'.returns.trans h.returns⟩

theorem Keeps.outer (h : c.Keeps c') : c.KeepsOuter c' :=
  ⟨by rw [h.levels], by unfold Store.depth; rw [h.levels], h.count, h.returns⟩

theorem KeepsOuter.trans (h : c.KeepsOuter c') (h' : c'.KeepsOuter c'') : c.KeepsOuter c'' :=
  ⟨h'.levels.trans h.levels, h'.depth.trans h.depth, Nat.le_trans h.count h'.count,
    h'.returns.trans h.returns⟩

theorem Keeps.resembles (h : c.Keeps c') {s : Store} (hs : s.Resembles c.store) :
    s.Resembles c'.store :=
  hs.of_shape (by unfold Store.shape; rw [h.levels]) h.count

/-- When the innermost level is dropped, all levels are as they were before it was opened. -/
theorem KeepsOuter.deleteLevel {parent : Option Link} {returns : Option Ty}
    (h : KeepsOuter { c with store := c.store.pushLevel parent, returns := returns } c') :
    c'.store.deleteLevel.levels = c.store.levels := by
  have hl := h.levels
  simpa [Store.pushLevel, Store.deleteLevel] using hl

end Checker

namespace Check

variable {α β : Type} {x : Check α} {c c' : Checker}

theorem bind_ok {y : α → Check β} {a : α} (h : x c = (.ok a, c')) : (x >>= y) c = y a c' := by
  change Check.bind x y c = y a c'
  unfold Check.bind
  rw [h]

theorem bind_error {y : α → Check β} {fault : SemanticFault} (h : x c = (.error fault, c')) :
    (x >>= y) c = (.error fault, c') := by
  change Check.bind x y c = (.error fault, c')
  unfold Check.bind
  rw [h]

theorem ask_ok {f : Checker → Except SemanticError α} {a : α} (h : f c = .ok a) :
    ask f c = (.ok a, c) := by
  unfold ask
  rw [h]

theorem ask_error {f : Checker → Except SemanticError α} {cause : SemanticError}
    (h : f c = .error cause) : ask f c = (.error ⟨cause, c.location⟩, c) := by
  unfold ask
  rw [h]

/-- A name that cannot be bound leaves the checker as it was. -/
theorem register_eq (name : String) (entry : Entry) (c : Checker) :
    register name entry c =
      match c.store.register name entry with
      | .ok s => (.ok (), { c with store := s })
      | .error e => (.error ⟨.store e, c.location⟩, c) := by
  unfold register
  rw [Store.declare_eq]
  cases c.store.register name entry <;> rfl

theorem register_ok {name : String} (hd : 0 < c.store.depth) (hn : name ∉ c.store.locals)
    (entry : Entry) :
    register name entry c = (.ok (), { c with store := c.store.extend name entry }) := by
  rw [register_eq, Store.register_eq hd, if_neg hn]

theorem register_error {name : String} (hd : 0 < c.store.depth) (hn : name ∈ c.store.locals)
    (entry : Entry) :
    register name entry c = (.error ⟨.store (.alreadyDefined name), c.location⟩, c) := by
  rw [register_eq, Store.register_eq hd, if_pos hn]

/-- However it ends, the levels and the function around are as before. -/
def Tidy (x : Check α) : Prop :=
  ∀ c : Checker, c.Keeps (x c).2

/-- However it ends, all is as before but what is bound on the innermost level. -/
def Contained (x : Check α) : Prop :=
  ∀ c : Checker, 0 < c.store.depth → c.KeepsOuter (x c).2

namespace Tidy

theorem contained (h : x.Tidy) : x.Contained :=
  fun c _ => (h c).outer

theorem bind {y : α → Check β} (hx : x.Tidy) (hy : ∀ a, (y a).Tidy) : (x >>= y).Tidy := by
  intro c
  have h := hx c
  cases hr : x c with
  | mk r c' =>
    rw [hr] at h
    cases r with
    | ok a =>
      rw [bind_ok hr]
      exact h.trans (hy a c')
    | error fault =>
      rw [bind_error hr]
      exact h

theorem pure (a : α) : (Pure.pure a : Check α).Tidy :=
  fun _ => ⟨rfl, Nat.le_refl _, rfl⟩

theorem ask (f : Checker → Except SemanticError α) : (Check.ask f).Tidy := by
  intro c
  unfold Check.ask
  cases f c <;> exact ⟨rfl, Nat.le_refl _, rfl⟩

theorem setLocation (loc : Location) : (Check.setLocation loc).Tidy :=
  fun _ => ⟨rfl, Nat.le_refl _, rfl⟩

end Tidy

namespace Contained

theorem bind {y : α → Check β} (hx : x.Contained) (hy : ∀ a, (y a).Contained) :
    (x >>= y).Contained := by
  intro c hd
  have h := hx c hd
  cases hr : x c with
  | mk r c' =>
    rw [hr] at h
    cases r with
    | ok a =>
      rw [bind_ok hr]
      exact h.trans (hy a c' (h.depth ▸ hd))
    | error fault =>
      rw [bind_error hr]
      exact h

theorem register (name : String) (entry : Entry) : (Check.register name entry).Contained := by
  intro c hd
  rw [register_eq]
  cases hr : c.store.register name entry with
  | error e => exact ⟨rfl, rfl, Nat.le_refl _, rfl⟩
  | ok s =>
    obtain ⟨-, rfl⟩ := Store.register_ok hd hr
    refine ⟨?_, Store.depth_extend _ _ _, Nat.le_succ _, rfl⟩
    apply Array.ext_getElem?
    intro i
    simp only [Array.getElem?_pop, Store.extend, Array.size_modify, Array.getElem?_modify]
    split
    · rw [if_neg (by unfold Store.depth; omega)]
    · rfl

/-- What is done on a level of its own leaves nothing behind. -/
theorem onLevel (h : x.Contained) : (Check.onLevel x).Tidy := by
  intro c
  have hx := h { c with store := c.store.newLevel } (by simp)
  exact ⟨hx.deleteLevel, hx.count, hx.returns⟩

theorem inFunction (h : x.Contained) (scope : Scope) (returns : Ty) :
    (Check.inFunction scope returns x).Tidy := by
  intro c
  have hx := h { c with store := c.store.newFrame scope, returns := some returns } (by simp)
  exact ⟨hx.deleteLevel, hx.count, rfl⟩

theorem bindParams (params : List Param) : (Check.bindParams params).Contained := by
  induction params with
  | nil => exact (Tidy.pure _).contained
  | cons p params ih => exact .bind (.register _ _) fun _ => ih

end Contained

end Check

open Check

mutual

/-- A statement leaves at most one name more, on the level that it stands on. -/
theorem Stmt.analyze_contained (stmt : Stmt) : stmt.analyze.Contained := by
  match stmt with
  | .declare _ _ _ _ =>
    refine .bind (Tidy.setLocation _).contained fun _ => .bind (Tidy.ask _).contained fun _ => ?_
    exact .register _ _
  | .define _ _ params _ body =>
    refine .bind (Tidy.setLocation _).contained fun _ => .bind (Tidy.ask _).contained fun _ => ?_
    refine .bind (.register _ _) fun _ => .bind (Tidy.ask _).contained fun _ => ?_
    exact (Contained.inFunction (.bind (.bindParams params) fun _ =>
      (Stmt.analyzeAll_contained body).onLevel.contained) _ _).contained
  | .expr _ _ =>
    exact (Tidy.bind (.setLocation _) fun _ => .bind (.ask _) fun _ => .pure _).contained
  | .return _ _ | .print _ _ | .read _ _ =>
    exact (Tidy.bind (.setLocation _) fun _ => .ask _).contained
  | .cond _ _ thenBlock none =>
    refine (Tidy.bind (.setLocation _) fun _ => .bind (.ask _) fun _ => ?_).contained
    exact .bind (Stmt.analyzeAll_contained thenBlock).onLevel fun _ => .pure _
  | .cond _ _ thenBlock (some elseBlock) =>
    refine (Tidy.bind (.setLocation _) fun _ => .bind (.ask _) fun _ => ?_).contained
    exact .bind (Stmt.analyzeAll_contained thenBlock).onLevel fun _ =>
      (Stmt.analyzeAll_contained elseBlock).onLevel
  | .while _ _ body =>
    refine (Tidy.bind (.setLocation _) fun _ => .bind (.ask _) fun _ => ?_).contained
    exact (Stmt.analyzeAll_contained body).onLevel
  | .for _ _ _ body =>
    refine (Tidy.bind (.setLocation _) fun _ => .bind (.ask _) fun _ => ?_).contained
    exact Contained.onLevel (.bind (.register _ _) fun _ =>
      (Stmt.analyzeAll_contained body).onLevel.contained)

theorem Stmt.analyzeAll_contained (stmts : List Stmt) : (Stmt.analyzeAll stmts).Contained := by
  match stmts with
  | [] => exact (Tidy.pure _).contained
  | stmt :: stmts =>
    exact .bind (Stmt.analyze_contained stmt) fun _ => Stmt.analyzeAll_contained stmts

end

theorem Block.analyze_tidy (block : Block) : block.analyze.Tidy :=
  (Stmt.analyzeAll_contained block).onLevel

theorem Stmt.located_bind {α β : Type} (loc : Location) (r : Except SemanticError α)
    (f : α → Except SemanticError β) :
    Stmt.located loc (r >>= f) = Stmt.located loc r >>= fun a => Stmt.located loc (f a) := by
  cases r <;> rfl

namespace Check

/-- The verdict is that of the rules, and if they give a store, then the checker has one like it. -/
structure Follows (x : Check Unit) (c : Checker) (r : Except SemanticFault Store) : Prop where
  verdict : (x c).1 = r.map fun _ => ()
  store : ∀ s, r = .ok s → s.Resembles (x c).2.store

variable {α β : Type} {x : Check Unit} {c c' : Checker} {s : Store} {loc : Location}

theorem ask_verdict {f : Checker → Except SemanticError α} (hc : c.location = some loc)
    {r : Except SemanticError α} (hf : f c = r) : (ask f c).1 = Stmt.located loc r := by
  unfold ask
  rw [hf, hc]
  cases r <;> rfl

namespace Follows

theorem of_error {fault : SemanticFault} (h : x c = (.error fault, c')) :
    x.Follows c (.error fault) :=
  ⟨by rw [h]; rfl, nofun⟩

theorem pure (h : s.Resembles c.store) : (Pure.pure () : Check Unit).Follows c (Pure.pure s) :=
  ⟨rfl, fun s' hs => by cases hs; exact h⟩

/-- What leaves the levels as they are follows the rules if only the verdict is right. -/
theorem of_tidy {r : Except SemanticFault Unit} (hx : x.Tidy) (h : s.Resembles c.store)
    (hv : (x c).1 = r) : x.Follows c (r >>= fun _ => Pure.pure s) := by
  subst hv
  have hk := (hx c).resembles h
  cases hr : (x c).1 with
  | error fault => exact ⟨hr, nofun⟩
  | ok u => exact ⟨hr, fun s' hs => by cases hs; exact hk⟩

theorem step {x : Check α} {y : α → Check Unit} {a : α} {r : Except SemanticFault Store}
    (hx : x c = (.ok a, c')) (h : (y a).Follows c' r) : (x >>= y).Follows c r := by
  have hb := bind_ok (y := y) hx
  exact ⟨by rw [hb]; exact h.verdict, by rw [hb]; exact h.store⟩

theorem ask {f : Checker → Except SemanticError α} {y : α → Check Unit}
    {r : Except SemanticError α} {g : α → Except SemanticFault Store}
    (hc : c.location = some loc) (hf : f c = r) (hy : ∀ a, (y a).Follows c (g a)) :
    (Check.ask f >>= y).Follows c (Stmt.located loc r >>= g) := by
  cases r with
  | error cause => exact .of_error (hc ▸ bind_error (ask_error hf))
  | ok a => exact .step (ask_ok hf) (hy a)

theorem register (h : s.Resembles c.store) (hc : c.location = some loc) (name : String)
    (entry : Entry) : (Check.register name entry).Follows c
      (Stmt.located loc (liftStore (s.register name entry))) := by
  rw [Store.register_eq h.checking]
  by_cases hn : name ∈ s.locals
  · have hx := register_error h.running (h.locals ▸ hn) entry
    rw [if_pos hn]
    exact .of_error (hc ▸ hx)
  · have hx := register_ok h.running (h.locals ▸ hn) entry
    rw [if_neg hn]
    exact ⟨by rw [hx]; rfl, fun s' hs => by cases hs; rw [hx]; exact h.extend hn rfl⟩

theorem bind {y : Unit → Check Unit} {r : Except SemanticFault Store}
    {g : Store → Except SemanticFault Store} (hx : x.Follows c r)
    (hy : ∀ s, s.Resembles (x c).2.store → (y ()).Follows (x c).2 (g s)) :
    (x >>= y).Follows c (r >>= g) := by
  obtain ⟨hv, hs⟩ := hx
  cases hr : x c with
  | mk verdict c' =>
    rw [hr] at hv hs hy
    cases r with
    | error fault =>
      cases hv
      exact .of_error (bind_error hr)
    | ok s =>
      cases hv
      have hb := bind_ok (y := y) hr
      have hf := hy s (hs s rfl)
      exact ⟨by rw [hb]; exact hf.verdict, by rw [hb]; exact hf.store⟩

/-- The same, when only a verdict follows. -/
theorem bind_verdict {y : Unit → Check Unit} {r : Except SemanticFault Store}
    {g : Store → Except SemanticFault Unit} (hx : x.Follows c r)
    (hy : ∀ s, s.Resembles (x c).2.store → (y () (x c).2).1 = g s) :
    ((x >>= y) c).1 = r >>= g := by
  obtain ⟨hv, hs⟩ := hx
  cases hr : x c with
  | mk verdict c' =>
    rw [hr] at hv hs hy
    cases r with
    | error fault =>
      cases hv
      rw [bind_error hr]
      rfl
    | ok s =>
      cases hv
      rw [bind_ok hr]
      exact hy s (hs s rfl)

/-- The same, when the rules give a verdict only, and go on in the store of before. -/
theorem after {y : Unit → Check Unit} {r : Except SemanticFault Unit}
    {g : Unit → Except SemanticFault Store} (hv : (x c).1 = r)
    (hy : (y ()).Follows (x c).2 (g ())) : (x >>= y).Follows c (r >>= g) := by
  cases hr : x c with
  | mk verdict c' =>
    rw [hr] at hv hy
    cases hv
    cases verdict with
    | error fault => exact .of_error (bind_error hr)
    | ok u =>
      have hb := bind_ok (y := y) hr
      exact ⟨by rw [hb]; exact hy.verdict, by rw [hb]; exact hy.store⟩

theorem bindParams {params : List Param} (h : s.Resembles c.store) (hc : c.location = some loc) :
    (Check.bindParams params).Follows c (Stmt.located loc (Stmt.bindAll s params)) := by
  induction params generalizing s c with
  | nil => exact .pure h
  | cons p params ih =>
    rw [Stmt.bindAll, Stmt.located_bind]
    refine .bind (.register h hc _ _) fun s' hs => ih hs ?_
    rw [register_eq]
    split <;> exact hc

end Follows

end Check

/-- What the rules say of a function whose name is free. -/
theorem Stmt.check_define_eq {s : Store} (hs : s.Valid) (hd : 0 < s.depth) {name : String}
    (hn : name ∉ s.locals) {params : List Param} (hp : (params.map Param.name).Nodup)
    (loc : Location) (result : Ty) (body : List Stmt) (returns : Option Ty) :
    (Stmt.define loc name params result body).check s returns =
      ((Stmt.located loc (Stmt.bindAll ((s.extend name (.function ⟨params, result, body⟩)).newFrame
          ⟨s.depth - 1, s.nextId⟩) params) >>= fun frame =>
        Stmt.checkAll frame.newLevel (some result) body) >>= fun _ =>
      Pure.pure (s.extend name (.function ⟨params, result, body⟩))) := by
  have hl := Store.lookupFunction_extend hd hs hn ⟨params, result, body⟩
  rw [Stmt.check]
  unfold Stmt.bindFunction
  rw [if_pos hp, Store.register_eq hd, if_neg hn]
  generalize s.extend name _ = s₁ at hl ⊢
  change (Stmt.located loc (liftStore (s₁.lookupFunction name) >>= _) >>= _) = _
  rw [hl]
  change (Stmt.located loc (Stmt.bindAll _ params >>= _) >>= _) = _
  cases Stmt.bindAll (s₁.newFrame ⟨s.depth - 1, s.nextId⟩) params <;> rfl

theorem Stmt.check_define_of_mem {s : Store} (hd : 0 < s.depth) {name : String}
    (hn : name ∈ s.locals) {params : List Param} (hp : (params.map Param.name).Nodup)
    (loc : Location) (result : Ty) (body : List Stmt) (returns : Option Ty) :
    (Stmt.define loc name params result body).check s returns =
      .error ⟨.store (.alreadyDefined name), some loc⟩ := by
  rw [Stmt.check]
  unfold Stmt.bindFunction
  rw [if_pos hp, Store.register_eq hd, if_pos hn]
  rfl

theorem Stmt.check_define_of_not_nodup (s : Store) (name : String) {params : List Param}
    (hp : ¬ (params.map Param.name).Nodup) (loc : Location) (result : Ty) (body : List Stmt)
    (returns : Option Ty) :
    (Stmt.define loc name params result body).check s returns =
      .error ⟨.duplicateParameter, some loc⟩ := by
  rw [Stmt.check]
  unfold Stmt.bindFunction
  rw [if_neg hp]
  rfl

/-- The body of a function is checked in a frame that sees what is in scope at the function. -/
theorem Stmt.define_follows {s : Store} {c : Checker} (h : s.Resembles c.store) (loc : Location)
    (name : String) (params : List Param) (result : Ty) (body : List Stmt)
    (hbody : ∀ {s : Store} {c : Checker}, s.Resembles c.store →
      (Stmt.analyzeAll body c).1 = Stmt.checkAll s c.returns body) :
    (Stmt.define loc name params result body).analyze.Follows c
      ((Stmt.define loc name params result body).check s c.returns) := by
  let f : Function := ⟨params, result, body⟩
  let c₁ : Checker := { c with location := some loc }
  have h₁ : s.Resembles c₁.store := h
  rw [Stmt.analyze]
  have hlocation : Check.setLocation loc c = (.ok (), c₁) := rfl
  refine .step hlocation ?_
  by_cases hp : (params.map Param.name).Nodup
  · refine .step (ask_ok (if_pos hp)) ?_
    by_cases hn : name ∈ s.locals
    · rw [Stmt.check_define_of_mem h.checking hn hp]
      exact .of_error (bind_error (register_error h₁.running (h₁.locals ▸ hn) _))
    · have hn₁ : name ∉ c₁.store.locals := h₁.locals ▸ hn
      let c₂ : Checker := { c₁ with store := c₁.store.extend name (.function f) }
      have hlookup : ask (fun c => liftStore (c.store.lookupFunction name)) c₂ =
          (.ok (f, ⟨c₁.store.depth - 1, c₁.store.nextId⟩), c₂) :=
        ask_ok (congrArg liftStore (Store.lookupFunction_extend h₁.running h₁.valid hn₁ f))
      rw [Stmt.check_define_eq h.checked h.checking hn hp]
      refine .step (register_ok h₁.running hn₁ _) (.step hlookup ?_)
      have hcontained := Contained.bind (.bindParams params) fun _ =>
        (Stmt.analyzeAll_contained body).onLevel.contained
      refine .of_tidy (hcontained.inFunction _ result) (h₁.extend hn rfl) ?_
      let frame : Checker := { c₂ with
        store := c₂.store.newFrame ⟨c₁.store.depth - 1, c₁.store.nextId⟩, returns := some result }
      have hframe := h₁.newFrame hn (.function f)
      have hparams := Contained.bindParams params frame hframe.running
      refine (Follows.bindParams (c := frame) hframe rfl).bind_verdict fun s' hs => ?_
      have hv := hbody (c := { (bindParams params frame).2 with
        store := (bindParams params frame).2.store.newLevel }) hs.newLevel
      refine hv.trans ?_
      rw [hparams.returns]
  · rw [Stmt.check_define_of_not_nodup s name hp]
    exact .of_error (bind_error (ask_error (if_neg hp)))

mutual

/-- A checker does with a statement what the rules say. -/
theorem Stmt.analyze_follows {s : Store} {c : Checker} (h : s.Resembles c.store) (stmt : Stmt) :
    stmt.analyze.Follows c (stmt.check s c.returns) := by
  have h₁ (loc : Location) : s.Resembles ({ c with location := some loc } : Checker).store := h
  match stmt with
  | .declare loc name ty initializer =>
    rw [Stmt.analyze, Stmt.check, Stmt.located_bind]
    exact .step rfl (.ask rfl (h.sameTypes.declaredType _ _ _) fun _ => .register (h₁ loc) rfl _ _)
  | .define loc name params result body =>
    exact Stmt.define_follows h loc name params result body fun h => Stmt.analyzeAll_verdict h body
  | .expr loc e =>
    rw [Stmt.analyze, Stmt.check]
    exact .step rfl (.ask rfl (h.sameTypes.check e) fun _ => .pure (h₁ loc))
  | .return loc value =>
    rw [Stmt.analyze, Stmt.check]
    exact .step rfl (.of_tidy (.ask _) (h₁ loc) (ask_verdict rfl (h.sameTypes.checkReturn _ _)))
  | .print loc e =>
    rw [Stmt.analyze, Stmt.check]
    exact .step rfl (.of_tidy (.ask _) (h₁ loc) (ask_verdict rfl (h.sameTypes.checkPrint _)))
  | .read loc target =>
    rw [Stmt.analyze, Stmt.check]
    exact .step rfl (.of_tidy (.ask _) (h₁ loc) (ask_verdict rfl (h.sameTypes.checkRead _)))
  | .cond loc condition thenBlock none =>
    rw [Stmt.analyze, Stmt.check]
    refine .step rfl (.ask rfl (h.sameTypes.checkCondition _) fun _ => ?_)
    have hk := (Stmt.analyzeAll_contained thenBlock).onLevel { c with location := some loc }
    refine .after (Stmt.analyzeAll_verdict (h₁ loc).newLevel thenBlock) ?_
    exact .pure (hk.resembles (h₁ loc))
  | .cond loc condition thenBlock (some elseBlock) =>
    rw [Stmt.analyze, Stmt.check]
    refine .step rfl (.ask rfl (h.sameTypes.checkCondition _) fun _ => ?_)
    have hk := (Stmt.analyzeAll_contained thenBlock).onLevel { c with location := some loc }
    refine .after (Stmt.analyzeAll_verdict (h₁ loc).newLevel thenBlock) ?_
    have h₂ := hk.resembles (h₁ loc)
    have hreturns := hk.returns
    generalize (onLevel (Stmt.analyzeAll thenBlock) { c with location := some loc }).2 = c₂ at *
    refine .of_tidy (Stmt.analyzeAll_contained elseBlock).onLevel h₂ ?_
    have hv := Stmt.analyzeAll_verdict (c := { c₂ with store := c₂.store.newLevel }) h₂.newLevel
      elseBlock
    exact hv.trans (by rw [hreturns])
  | .while loc condition body =>
    rw [Stmt.analyze, Stmt.check]
    refine .step rfl (.ask rfl (h.sameTypes.checkCondition _) fun _ => ?_)
    exact .of_tidy (Stmt.analyzeAll_contained body).onLevel (h₁ loc)
      (Stmt.analyzeAll_verdict (h₁ loc).newLevel body)
  | .for loc name range body =>
    rw [Stmt.analyze, Stmt.check, Stmt.located_bind, bind_assoc]
    refine .step rfl (.ask rfl (h.sameTypes.elementType _) fun element => ?_)
    rw [← bind_assoc]
    have hcontained := Contained.bind (.register name (.variable ⟨element, none⟩)) fun _ =>
      (Stmt.analyzeAll_contained body).onLevel.contained
    refine .of_tidy hcontained.onLevel (h₁ loc) ?_
    let c₂ : Checker := ⟨c.store.newLevel, some loc, c.returns⟩
    have hv := Follows.register (c := c₂) h.newLevel rfl name (.variable ⟨element, none⟩)
    refine hv.bind_verdict fun s' hs => ?_
    have hk := Contained.register name (.variable ⟨element, none⟩) c₂ h.newLevel.running
    generalize (register name (.variable ⟨element, none⟩) c₂).2 = c₃ at *
    have hv := Stmt.analyzeAll_verdict (c := { c₃ with store := c₃.store.newLevel }) hs.newLevel
      body
    exact hv.trans (by rw [hk.returns])

theorem Stmt.analyzeAll_verdict {s : Store} {c : Checker} (h : s.Resembles c.store)
    (stmts : List Stmt) : (Stmt.analyzeAll stmts c).1 = Stmt.checkAll s c.returns stmts := by
  match stmts with
  | [] => rfl
  | stmt :: stmts =>
    rw [Stmt.analyzeAll, Stmt.checkAll]
    have hk := stmt.analyze_contained c h.running
    refine (Stmt.analyze_follows h stmt).bind_verdict fun s' hs => ?_
    rw [← hk.returns]
    exact Stmt.analyzeAll_verdict hs stmts

end

/-- The verdict on a program is that of the rules, in a store like that of the checker. -/
theorem Block.analyze_verdict {s : Store} {c : Checker} (h : s.Resembles c.store) (block : Block) :
    (block.analyze c).1 = Stmt.checkAll s.newLevel c.returns block :=
  Stmt.analyzeAll_verdict (c := { c with store := c.store.newLevel }) h.newLevel block

theorem Block.check_eq (block : Block) :
    block.check = Stmt.checkAll Store.new.newLevel none block :=
  Block.analyze_verdict (c := .new) (.refl .new Nat.one_pos) block

namespace Checker

/-- What a checker is used for. -/
inductive Call where
  | program (block : Block)
  | expr (e : Expr)

/-- The checker that answered a call, whatever the answer was. -/
def serve (c : Checker) : Call → Checker
  | .program block => (c.program block).2
  | .expr e => (e.analyze c).2

theorem serve_keeps (c : Checker) (call : Call) : c.Keeps (c.serve call) := by
  cases call with
  | program block => exact block.analyze_tidy c
  | expr e => exact Tidy.ask _ c

theorem foldl_serve_keeps (calls : List Call) (c : Checker) : c.Keeps (calls.foldl serve c) := by
  induction calls generalizing c with
  | nil => exact ⟨rfl, Nat.le_refl _, rfl⟩
  | cons call calls ih => exact (c.serve_keeps call).trans (ih _)

/-- A checker is not damaged by what it was used for. After any calls, each of them accepted or
rejected, it has a single level without bindings, and is in no function: so no name is in scope, and
a program that returns at once is rejected. Its verdict on any program is that of a new checker,
with the same cause and the same location. -/
theorem verdict_after_calls (calls : List Call) (program : Block) :
    ((calls.foldl serve .new).program program).1 = (Checker.new.program program).1 ∧
      (calls.foldl serve .new).store.levels = #[.empty none] ∧
      (calls.foldl serve .new).returns = none ∧
      (∀ name, (calls.foldl serve .new).expr (.identifier name) =
        .error ⟨.store (.undefined name), (calls.foldl serve .new).location⟩) ∧
      ∀ loc value stmts, ((calls.foldl serve .new).program (.return loc value :: stmts)).1 =
        .error ⟨.returnOutside, some loc⟩ := by
  have hk := foldl_serve_keeps calls .new
  generalize calls.foldl serve .new = c at hk
  have hlike : Store.new.Resembles c.store := hk.resembles (.refl .new Nat.one_pos)
  have hreturns : c.returns = none := hk.returns
  have hverdict (block : Block) :
      (c.program block).1 = Stmt.checkAll Store.new.newLevel none block := by
    rw [← hreturns]
    exact Block.analyze_verdict hlike block
  refine ⟨(hverdict program).trans program.check_eq.symm, hk.levels, hreturns, fun name => ?_,
    fun loc value stmts => hverdict _⟩
  have hname : (Expr.identifier name).check c.store = .error (.store (.undefined name)) := by
    rw [hlike.sameTypes.check, Expr.check]
    unfold Store.lookupVariable
    rw [Store.find?_eq .new, Store.visible_new]
    rfl
  unfold expr Expr.analyze
  rw [ask_error hname]

end Checker

end Offside
