import Offside.Proofs.Runs.Tracking
import Offside.Proofs.Runs.Visits
import Offside.Proofs.Typing.Checking

/-!
Every moment of a run of an accepted program is as the checker expects it: what is being done was
found well typed where it stands in the program, and the running store agrees with the store that
the checker had there. The moments of a run keep this, one by one.
-/

namespace Offside

/-- At the position, the run is as the checker expects it. -/
structure Block.Located (program : Block) (concrete : Prop) (site : Site) (position : Position)
    (σ : Store) (o : Origins) : Prop where
  site_eq : program.site? position = some site
  tracks : Tracks program concrete site.store site.origins σ o

/-- The body of the loop was found well typed with a variable of the type. -/
structure Site.Loops (site : Site) (concrete : Prop) (name : String) (element : Ty)
    (body : Block) (frame : Store) : Prop where
  rest : ∃ loc range rest, site.rest = .for loc name range body :: rest ∧
    Stmt.elementType site.store range = .ok element
  bound : site.store.newLevel.register name (.variable ⟨element, none⟩) = .ok frame
  checked : Stmt.checkAll frame.newLevel site.returns body = .ok ()
  concrete : concrete → Stmt.AllConcrete body

/-- What is done at the moment, is accepted by the checker at its position. -/
inductive Moment.Accepted (program : Block) (concrete : Prop) : Moment → Prop
  | expr {site : Site} {t : Typed} (h : program.Located concrete site p m.store o)
      (hc : e.check site.store = .ok t) : Accepted program concrete ⟨n, .expr e, p, m, o⟩
  | args {site : Site} (h : program.Located concrete site p m.store o)
      (hc : ∀ e ∈ es, ∃ t, e.check site.store = .ok t ∧ t.ty ≠ .none) :
      Accepted program concrete ⟨n, .args es, p, m, o⟩
  | call {site : Site} {t : Typed} (h : program.Located concrete site p m.store o)
      (hc : (Expr.call name args).check site.store = .ok t) :
      Accepted program concrete ⟨n, .call name args, p, m, o⟩
  | stmt {site : Site} {rest : List Stmt} {s : Store}
      (h : program.Located concrete site p m.store o) (hr : site.rest = stmt :: rest)
      (hc : stmt.check site.store site.returns = .ok s) (hconcrete : concrete → stmt.Concrete) :
      Accepted program concrete ⟨n, .stmt stmt, p, m, o⟩
  | seq {site : Site} (h : program.Located concrete site p m.store o) (hr : site.rest = stmts)
      (hc : Stmt.checkAll site.store site.returns stmts = .ok ())
      (hconcrete : concrete → Stmt.AllConcrete stmts) :
      Accepted program concrete ⟨n, .seq stmts, p, m, o⟩
  | block {s : Store} {os : Origins} {returns : Option Ty}
      (hs : program.site? p = some ⟨s.newLevel, os.newLevel, returns, stmts⟩)
      (h : Tracks program concrete s os m.store o)
      (hc : Stmt.checkAll s.newLevel returns stmts = .ok ())
      (hconcrete : concrete → Stmt.AllConcrete stmts) :
      Accepted program concrete ⟨n, .block stmts, p, m, o⟩
  | bind {s frame : Store} {os : Origins} (h : Tracks program concrete s os m.store o)
      (hs : program.site? (p.inner false) = some ⟨frame.newLevel,
        (os.bindParams p i params).newLevel, some f.returns, f.body⟩)
      (hb : Stmt.bindAll s params = .ok frame)
      (hc : Stmt.checkAll frame.newLevel (some f.returns) f.body = .ok ())
      (hconcrete : concrete → Stmt.AllConcrete f.body)
      (hv : List.Forall₂ (fun v p => ∃ w, v.coerce p.ty = some w ∧ w.HasTy p.ty) values params)
      (hp : ∀ (j : Nat) param, params[j]? = some param →
        program.Registers ⟨p, some (i + j)⟩ param.name (.variable ⟨param.ty, none⟩)) :
      Accepted program concrete ⟨n, .bind f i params values, p, m, o⟩
  | each {site : Site} {frame : Store} (h : program.Located concrete site p m.store o)
      (hl : site.Loops concrete name element body frame)
      (hi : ∀ item ∈ items, item.HasTy element) :
      Accepted program concrete ⟨n, .each name element items body, p, m, o⟩
  | item {site : Site} {frame : Store} (hs : program.site? p = some site)
      (h : Tracks program concrete site.store.newLevel site.origins.newLevel m.store o)
      (hl : site.Loops concrete name element body frame) (hi : item.HasTy element) :
      Accepted program concrete ⟨n, .item name element item body, p, m, o⟩

/-- What a checked statement evaluates first is checked too. -/
theorem Stmt.check_operand {s s' : Store} {returns : Option Ty} {stmt : Stmt} {e : Expr}
    (h : stmt.check s returns = .ok s') (he : stmt.operand? = some e) :
    ∃ t, e.check s = .ok t := by
  match stmt with
  | .declare _ name ty initializer =>
    obtain ⟨t, ht, -⟩ := check_declare h
    obtain ⟨e', source, -, rfl, hs, -⟩ | ⟨-, rfl⟩ | ⟨e', source, -, rfl, hs, -⟩ :=
      declaredType_cases ht
    · cases he
      exact ⟨source, hs⟩
    · cases he
    · cases he
      exact ⟨source, hs⟩
  | .define .. => cases he
  | .expr _ e' =>
    cases e' with
    | call name args => cases he
    | _ =>
      cases he
      exact (check_expr h).2
  | .return _ value =>
    obtain ⟨-, rfl⟩ | ⟨-, e', source, -, rfl, hs, -⟩ := checkReturn_cases (check_return h).2
    · cases he
    · cases he
      exact ⟨source, hs⟩
  | .print _ _ =>
    cases he
    obtain ⟨-, t, ht, -⟩ := check_print h
    exact ⟨t, ht⟩
  | .read _ _ =>
    cases he
    obtain ⟨-, t, ht, -⟩ := check_read h
    exact ⟨t, ht⟩
  | .cond _ _ _ _ =>
    cases he
    obtain ⟨-, ⟨t, ht, -⟩, -⟩ := check_cond h
    exact ⟨t, ht⟩
  | .while _ _ _ =>
    cases he
    obtain ⟨-, ⟨t, ht, -⟩, -⟩ := check_while h
    exact ⟨t, ht⟩
  | .for _ _ _ _ =>
    cases he
    obtain ⟨-, element, frame, helement, -⟩ := check_for h
    obtain ⟨t, ht, -⟩ := elementType_cases helement
    exact ⟨t, ht⟩

namespace Block.Located

variable {program : Block} {concrete : Prop} {site : Site} {position : Position} {m m' : Machine}
  {o : Origins}

theorem advance (h : program.Located concrete site position m.store o) (ha : m.Advances m') :
    program.Located concrete site position m'.store o :=
  ⟨h.site_eq, h.tracks.advance ha⟩

theorem ready (h : program.Located concrete site position m.store o) :
    Ready concrete site.store m.store :=
  h.tracks.ready

theorem eval {e : Expr} {t : Typed} {ev : Evaluated} {limit n : Nat}
    (h : program.Located concrete site position m.store o) (hc : e.check site.store = .ok t)
    (hd : e.eval limit n m = .done ev m') : program.Located concrete site position m'.store o :=
  h.advance ((Expr.eval_sound concrete limit n e _ _ m hc h.ready).of_done hd).advances

theorem evalValue {e : Expr} {t : Typed} {v : Value} {limit n : Nat}
    (h : program.Located concrete site position m.store o) (hc : e.check site.store = .ok t)
    (hn : t.ty ≠ .none) (hd : Exec.evalValue (Expr.eval limit n) e m = .done v m') :
    program.Located concrete site position m'.store o :=
  h.advance ((Exec.evalValue_sound (Expr.eval_sound concrete limit n) hc hn h.ready).of_done hd).1

theorem evalCondition {stmt : Stmt} {e : Expr} {b : Bool} {limit n : Nat}
    (h : program.Located concrete site position m.store o)
    (hc : ∃ t, e.check site.store = .ok t ∧ t.ty = .boolean)
    (hd : Exec.evalCondition (Expr.eval limit n) e (m.located stmt) = .done b m') :
    program.Located concrete site position m'.store o := by
  have hm : Ready concrete site.store (m.located stmt).store := h.ready
  have ha := (Exec.evalCondition_sound (Expr.eval_sound concrete limit n) hc hm).of_done hd
  exact h.advance (m := m.located stmt) ha

end Block.Located

/-- A variable is bound for checker and program. -/
theorem Tracks.variable {program : Block} {concrete : Prop} {s s' σ σ' : Store} {os o : Origins}
    (h : Tracks program concrete s os σ o) {name : String} {t : Ty} {v : Value} {d : Declaration}
    (hs : s.register name (.variable ⟨t, none⟩) = .ok s')
    (hσ : σ.register name (.variable ⟨t, some v⟩) = .ok σ') (hv : v.HasTy t)
    (hr : program.Registers d name (.variable ⟨t, none⟩)) :
    Tracks program concrete s' (os.bind name d) σ' (o.bind name d) := by
  obtain ⟨hn, rfl⟩ := Store.register_ok h.ready.checking hs
  obtain ⟨-, rfl⟩ := Store.register_ok h.ready.running hσ
  refine h.extend hn (h.ready.extend hn rfl (fun w hw => ?_) nofun) hr nofun
  cases hw
  exact ⟨v, rfl, hv⟩

/-- Of a function in scope it is known where it is defined. -/
theorem Tracks.function_origin {program : Block} {concrete : Prop} {s σ : Store} {os o : Origins}
    (h : Tracks program concrete s os σ o) {name : String} {f : Function} {scope : Scope}
    {q : Position} (hf : σ.lookupFunction name = .ok (f, scope))
    (ho : ∀ d, σ.origin? o name = some d → d.position = q) :
    σ.origin? o name = some ⟨q, none⟩ := by
  unfold Store.lookupFunction at hf
  split at hf
  · case h_1 i n id g hfind =>
    obtain ⟨d, hd, hr⟩ := h.exists_origin hfind
    obtain rfl := ho d hd
    cases hr with
    | defined hs hr => exact hd
  · cases hf
  · cases hf

namespace Moment.Accepted

variable {program : Block} {concrete : Prop} {site : Site} {p : Position} {m m' : Machine}
  {o : Origins} {limit n : Nat}

theorem tail {stmt : Stmt} {stmts : List Stmt}
    (h : Accepted program concrete ⟨n, .seq (stmt :: stmts), p, m, o⟩)
    (hd : stmt.exec limit n m = .done .next m') :
    Accepted program concrete ⟨n, .seq stmts, p.next, m', o.declare stmt p⟩ := by
  cases h with
  | @seq _ _ _ _ _ site hat hr hc hconcrete =>
    obtain ⟨s', hstmt, hrest⟩ := Stmt.checkAll_cons hc
    have hnext : program.site? p.next =
        some ⟨s', site.origins.declare stmt p, site.returns, stmts⟩ := by
      rw [Block.site?_next hat.site_eq]
      unfold Site.next?
      rw [hr]
      simp only
      rw [hstmt]
    exact .seq ⟨hnext, hat.tracks.statement hat.site_eq hr hstmt (fun h => (hconcrete h).1) hd⟩
      rfl hrest fun h => (hconcrete h).2

/-- A block of the statement at the position. -/
theorem inner {stmts : Block} {branch : Bool} (h : program.Located concrete site p m.store o)
    (hs : site.inner? p branch =
      some ⟨site.store.newLevel, site.origins.newLevel, site.returns, stmts⟩)
    (hc : Stmt.checkAll site.store.newLevel site.returns stmts = .ok ())
    (hconcrete : concrete → Stmt.AllConcrete stmts) :
    Accepted program concrete ⟨n, .block stmts, p.inner branch, m, o⟩ :=
  .block (by rw [Block.site?_inner h.site_eq, hs]) h.tracks hc hconcrete

theorem thenBlock {loc : Location} {e : Expr} {stmts : Block} {elseBlock : Option Block}
    (h : Accepted program concrete ⟨n + 1, .stmt (.cond loc e stmts elseBlock), p, m, o⟩)
    (hd : Exec.evalCondition (Expr.eval limit n) e (m.located (.cond loc e stmts elseBlock)) =
      .done true m') :
    Accepted program concrete ⟨n, .block stmts, p.inner false, m', o⟩ := by
  cases h with
  | @stmt _ _ _ _ _ site rest s hat hr hc hconcrete =>
    obtain ⟨-, hcondition, hthen, -⟩ := Stmt.check_cond hc
    refine inner (hat.evalCondition hcondition hd) ?_ hthen fun h => ?_
    · unfold Site.inner?
      rw [hr]
    · cases elseBlock with
      | none => exact hconcrete h
      | some block => exact (hconcrete h).1

theorem elseBlock {loc : Location} {e : Expr} {thenBlock stmts : Block}
    (h : Accepted program concrete ⟨n + 1, .stmt (.cond loc e thenBlock (some stmts)), p, m, o⟩)
    (hd : Exec.evalCondition (Expr.eval limit n) e
      (m.located (.cond loc e thenBlock (some stmts))) = .done false m') :
    Accepted program concrete ⟨n, .block stmts, p.inner true, m', o⟩ := by
  cases h with
  | @stmt _ _ _ _ _ site rest s hat hr hc hconcrete =>
    obtain ⟨-, hcondition, -, helse⟩ := Stmt.check_cond hc
    refine inner (hat.evalCondition hcondition hd) ?_ (helse stmts rfl)
      fun h => (hconcrete h).2
    unfold Site.inner?
    rw [hr]

theorem whileBody {loc : Location} {e : Expr} {stmts : Block}
    (h : Accepted program concrete ⟨n + 1, .stmt (.while loc e stmts), p, m, o⟩)
    (hd : Exec.evalCondition (Expr.eval limit n) e (m.located (.while loc e stmts)) =
      .done true m') :
    Accepted program concrete ⟨n, .block stmts, p.inner false, m', o⟩ := by
  cases h with
  | @stmt _ _ _ _ _ site rest s hat hr hc hconcrete =>
    obtain ⟨-, hcondition, hbody⟩ := Stmt.check_while hc
    refine inner (hat.evalCondition hcondition hd) ?_ hbody hconcrete
    unfold Site.inner?
    rw [hr]

theorem whileAgain {loc : Location} {e : Expr} {stmts : Block} {m'' : Machine}
    (h : Accepted program concrete ⟨n + 1, .stmt (.while loc e stmts), p, m, o⟩)
    (hd : Exec.evalCondition (Expr.eval limit n) e (m.located (.while loc e stmts)) =
      .done true m')
    (hb : Exec.block (Stmt.exec limit n) stmts m' = .done .next m'') :
    Accepted program concrete ⟨n + 1, .stmt (.while loc e stmts), p, m'', o⟩ := by
  cases h with
  | @stmt _ _ _ _ _ site rest s hat hr hc hconcrete =>
    obtain ⟨-, hcondition, hbody⟩ := Stmt.check_while hc
    have hat' := hat.evalCondition hcondition hd
    obtain ⟨ha, -⟩ := (Exec.block_sound (Stmt.exec_sound concrete limit n)
      (Stmt.exec_contained limit n) hbody hconcrete hat'.ready).of_done hb
    exact .stmt (hat'.advance ha) hr hc hconcrete

theorem forItems {loc : Location} {name : String} {e : Expr} {stmts : Block} {v : Value}
    {element : Ty} {items : List Value}
    (h : Accepted program concrete ⟨n + 1, .stmt (.for loc name e stmts), p, m, o⟩)
    (hd : Exec.evalValue (Expr.eval limit n) e (m.located (.for loc name e stmts)) = .done v m')
    (hv : v.elements? = some (element, items)) :
    Accepted program concrete ⟨n, .each name element items stmts, p, m', o⟩ := by
  cases h with
  | @stmt _ _ _ _ _ site rest s hat hr hc hconcrete =>
    obtain ⟨-, element', frame, helement, hreg, hbody⟩ := Stmt.check_for hc
    have hm : Ready concrete site.store (m.located (.for loc name e stmts)).store := hat.ready
    obtain ⟨ha, items', hitems, hall⟩ :=
      (Exec.range_sound (Expr.eval_sound concrete limit n) helement hm).of_done hd
    rw [hv] at hitems
    cases hitems
    exact .each (hat.advance (m := m.located _) ha) ⟨⟨loc, e, rest, hr, helement⟩, hreg, hbody, hconcrete⟩ hall

theorem nextItem {name : String} {element : Ty} {item : Value} {items : List Value} {stmts : Block}
    (h : Accepted program concrete ⟨n, .each name element (item :: items) stmts, p, m, o⟩)
    (hd : Exec.onLevel (do
      Exec.update (·.declare name (.variable ⟨element, some item⟩))
      Exec.block (Stmt.exec limit n) stmts) m = .done .next m') :
    Accepted program concrete ⟨n, .each name element items stmts, p, m', o⟩ := by
  cases h with
  | @each _ _ _ _ _ _ _ _ site frame hat hl hi =>
    obtain ⟨ha, -⟩ := (Exec.item_sound (Stmt.exec_sound concrete limit n)
      (Stmt.exec_contained limit n) hl.bound hl.checked hl.concrete (hi item List.mem_cons_self)
      hat.ready).of_done hd
    exact .each (hat.advance ha) hl fun i hi' => hi i (List.mem_cons_of_mem _ hi')

theorem itemBody {name : String} {element : Ty} {item : Value} {stmts : Block} {σ : Store}
    (h : Accepted program concrete ⟨n, .item name element item stmts, p, m, o⟩)
    (hd : m.store.register name (.variable ⟨element, some item⟩) = .ok σ) :
    Accepted program concrete
      ⟨n, .block stmts, p.inner false, { m with store := σ }, o.bind name ⟨p, none⟩⟩ := by
  cases h with
  | @item _ _ _ _ _ _ _ _ site frame hs h hl hi =>
    obtain ⟨loc, range, rest, hr, helement⟩ := hl.rest
    refine .block ?_ (h.variable hl.bound hd hi (.loop hs hr helement)) hl.checked hl.concrete
    rw [Block.site?_inner hs]
    unfold Site.inner?
    rw [hr]
    simp only [helement, hl.bound]

theorem elements {es : List Expr}
    (h : Accepted program concrete ⟨n + 1, .expr (.list es), p, m, o⟩) :
    Accepted program concrete ⟨n, .args es, p, m, o⟩ := by
  cases h with
  | @expr _ _ _ _ _ site t hat hc =>
    obtain ⟨types, htypes, -⟩ := Expr.check_list hc
    have hall := (Expr.checkElements_ok htypes).imp
      (S := fun e _ => (∃ t, e.check site.store = .ok t ∧ t.ty ≠ .none) ∧ True)
      fun e ty ⟨hn, d, hd⟩ => ⟨⟨⟨ty, d⟩, hd, hn⟩, trivial⟩
    exact .args hat ((List.forall₂_and_left _ _).mp hall).1

/-- The right operand is checked where the left one was. -/
theorem right {lhs rhs : Expr} {op : BinaryOp} {ev : Evaluated}
    (h : Accepted program concrete ⟨n + 1, .expr (.binary lhs op rhs), p, m, o⟩)
    (hd : lhs.eval limit n m = .done ev m') :
    Accepted program concrete ⟨n, .expr rhs, p, m', o⟩ := by
  cases h with
  | expr hat hc =>
    obtain ⟨left, right, hl, hr, -⟩ := Expr.check_binary hc
    exact .expr (hat.eval hl hd) hr

theorem callArgs {name : String} {args : List Expr}
    (h : Accepted program concrete ⟨n, .call name args, p, m, o⟩) :
    Accepted program concrete ⟨n, .args args, p, m, o⟩ := by
  cases h with
  | @call _ _ _ _ _ _ site t hat hc =>
    obtain ⟨f, scope, -, hlen, hargs, -⟩ := Expr.check_call hc
    have hall := (Expr.checkArgs_ok hlen hargs).imp
      (S := fun e _ => (∃ t, e.check site.store = .ok t ∧ t.ty ≠ .none) ∧ True)
      fun e q ⟨t, ht, hacc⟩ => ⟨⟨t, ht, (Ty.ne_of_accepts hacc).1⟩, trivial⟩
    exact .args hat ((List.forall₂_and_left _ _).mp hall).1

theorem arg {e : Expr} {es : List Expr}
    (h : Accepted program concrete ⟨n, .args (e :: es), p, m, o⟩) :
    Accepted program concrete ⟨n, .expr e, p, m, o⟩ := by
  cases h with
  | @args _ _ _ _ _ site hat hc =>
    obtain ⟨t, ht, -⟩ := hc e List.mem_cons_self
    exact .expr hat ht

theorem nextArg {e : Expr} {es : List Expr} {v : Value}
    (h : Accepted program concrete ⟨n, .args (e :: es), p, m, o⟩)
    (hd : Exec.evalValue (Expr.eval limit n) e m = .done v m') :
    Accepted program concrete ⟨n, .args es, p, m', o⟩ := by
  cases h with
  | @args _ _ _ _ _ site hat hc =>
    obtain ⟨t, ht, hn⟩ := hc e List.mem_cons_self
    exact .args (hat.evalValue ht hn hd) fun e' he => hc e' (List.mem_cons_of_mem _ he)

/-- In the frame of a call, the function is what the checker found at its definition. -/
theorem frame {name : String} {args : List Expr} {f : Function} {scope : Scope}
    {values : List Value} {q : Position}
    (h : Accepted program concrete ⟨n, .call name args, p, m, o⟩)
    (hf : m.store.lookupFunction name = .ok (f, scope))
    (hd : Exec.evalAll (Expr.eval limit n) args m = .done values m')
    (ho : ∀ d, m.store.origin? o name = some d → d.position = q) :
    Accepted program concrete ⟨n, .bind f 0 f.params values, q,
      { m' with store := m'.store.newFrame scope, depth := m'.depth + 1 }, o.newLevel⟩ := by
  cases h with
  | @call _ _ _ _ _ _ site t hat hc =>
    obtain ⟨f', scope', hf', hlen, hargs, -⟩ := Expr.check_call hc
    obtain ⟨scope'', hlookup, hconcrete, -⟩ := hat.ready.lookupFunction hf'
    rw [hf] at hlookup
    cases hlookup
    obtain ⟨ha, hvalues⟩ := (Exec.args_sound (Expr.eval_sound concrete limit n) hlen hargs
      hat.ready).of_done hd
    have hat' := hat.advance ha
    have hf₁ : m'.store.lookupFunction name = .ok (f, scope) := by
      rw [Store.lookupFunction_of_shape ha.keeps.shape, hf]
    have horigin : m'.store.origin? o name = some ⟨q, none⟩ := by
      rw [← hat'.tracks.origin?, hat.tracks.origin?]
      exact hat.tracks.function_origin hf ho
    obtain ⟨s, os, frame, htracks, hbind, hsite, hbody, hparams⟩ :=
      hat'.tracks.newFrame hf₁ horigin
    refine .bind htracks hsite hbind hbody hconcrete hvalues fun j param hj => ?_
    rw [Nat.zero_add]
    exact hparams j param hj

theorem param {f : Function} {i : Nat} {param : Param} {params : List Param} {v w : Value}
    {values : List Value} {σ : Store}
    (h : Accepted program concrete ⟨n, .bind f i (param :: params) (v :: values), p, m, o⟩)
    (hv : v.coerce param.ty = some w)
    (hr : m.store.register param.name (.variable ⟨param.ty, some w⟩) = .ok σ) :
    Accepted program concrete ⟨n, .bind f (i + 1) params values, p, { m with store := σ },
      o.bind param.name ⟨p, some i⟩⟩ := by
  cases h with
  | @bind _ _ _ _ _ _ _ _ s frame os h hs hb hc hconcrete hvalues hp =>
    obtain ⟨s₁, hs₁, hb₁⟩ := Stmt.bindAll_cons hb
    cases hvalues with
    | cons hfirst hvalues =>
      obtain ⟨w', hw, hty⟩ := hfirst
      rw [hv] at hw
      cases hw
      have htracks := h.variable hs₁ hr hty (hp 0 param rfl)
      refine .bind htracks hs hb₁ hc hconcrete hvalues fun j q hj => ?_
      rw [Nat.add_assoc, Nat.add_comm 1]
      exact hp (j + 1) q hj

theorem body {f : Function} {i : Nat} {params : List Param} {values : List Value}
    (h : Accepted program concrete ⟨n, .bind f i params values, p, m, o⟩)
    (he : params = [] ∨ values = []) :
    Accepted program concrete ⟨n, .block f.body, p.inner false, m, o⟩ := by
  cases h with
  | @bind _ _ _ _ _ _ _ _ s frame os h hs hb hc hconcrete hvalues hp =>
    obtain rfl : params = [] := by
      obtain rfl | rfl := he
      · rfl
      · exact List.forall₂_nil_left_iff.mp hvalues
    cases hb
    exact .block hs h hc hconcrete

/-- What a run enters from a moment that is as expected, is as expected. -/
theorem enter {a b : Moment} (h : a.Accepted program concrete) (he : Enters limit a b) :
    b.Accepted program concrete := by
  cases he with
  | block =>
    cases h with
    | block hs h hc hconcrete => exact .seq ⟨hs, h.newLevel⟩ rfl hc hconcrete
  | head =>
    cases h with
    | seq hat hr hc hconcrete =>
      obtain ⟨s', hstmt, -⟩ := Stmt.checkAll_cons hc
      exact .stmt hat hr hstmt fun h => (hconcrete h).1
  | tail hd => exact h.tail hd
  | operand ho =>
    cases h with
    | stmt hat hr hc hconcrete =>
      obtain ⟨t, ht⟩ := Stmt.check_operand hc ho
      exact .expr hat ht
  | callStmt =>
    cases h with
    | stmt hat hr hc hconcrete =>
      obtain ⟨-, t, ht⟩ := Stmt.check_expr hc
      exact .call hat ht
  | thenBlock hd => exact h.thenBlock hd
  | elseBlock hd => exact h.elseBlock hd
  | whileBody hd => exact h.whileBody hd
  | whileAgain hd hb => exact h.whileAgain hd hb
  | forItems hd hv => exact h.forItems hd hv
  | item =>
    cases h with
    | each hat hl hi =>
      exact .item hat.site_eq hat.tracks.newLevel hl (hi _ List.mem_cons_self)
  | nextItem hd => exact h.nextItem hd
  | itemBody hd => exact h.itemBody hd
  | elements => exact h.elements
  | unary =>
    cases h with
    | expr hat hc =>
      obtain ⟨t, ty, ht, -⟩ := Expr.check_unary hc
      exact .expr hat ht
  | left =>
    cases h with
    | expr hat hc =>
      obtain ⟨left, right, hl, -⟩ := Expr.check_binary hc
      exact .expr hat hl
  | right hd =>
    obtain ⟨ev, hd⟩ := Exec.evalValue_done hd
    exact h.right hd
  | indexRight hd | assignRight hd => exact h.right hd
  | call =>
    cases h with
    | expr hat hc => exact .call hat hc
  | arg => exact h.arg
  | nextArg hd => exact h.nextArg hd
  | args _ _ => exact h.callArgs
  | frame hf _ hd _ ho => exact h.frame hf hd ho
  | param hv hr => exact h.param hv hr
  | body he => exact h.body he

end Moment.Accepted

theorem Block.checkAll_of_check {program : Block} (h : program.check = .ok ()) :
    Stmt.checkAll Store.new.newLevel none program = .ok () :=
  program.check_eq ▸ h

/-- A run leaves no level behind. -/
theorem Machine.run_tidy (limit steps : Nat) (program : Block) :
    Exec.Tidy (Machine.run limit steps program) := by
  intro m
  have hb := Exec.tidy_block (Stmt.exec_contained limit steps) program m
  refine .intro (fun _ m' hd => ?_) fun f m' hf => ?_
  · unfold run at hd
    split at hd
    · case h_1 signal m₁ hm =>
      unfold Exec.flush at hd
      split at hd
      · cases hd
        exact hb.of_done hm
      · cases hd
    · cases hd
    · cases hd
  · unfold run at hf
    split at hf
    · case h_1 signal m₁ hm =>
      unfold Exec.flush at hf
      split at hf
      · cases hf
      · cases hf
        exact hb.of_done hm
    · case h_2 fault m₁ hm =>
      cases hf
      exact hb.of_fault hm
    · cases hf

theorem Machine.Idle.keeps {m : Machine} (h : m.Idle) :
    ∃ input output, (Machine.new input output).Keeps m := by
  induction h with
  | new input output => exact ⟨input, output, .refl _⟩
  | done _ hr ih =>
    obtain ⟨input, output, hk⟩ := ih
    exact ⟨input, output, hk.trans ((Machine.run_tidy _ _ _ _).of_done hr)⟩
  | fault _ hr ih =>
    obtain ⟨input, output, hk⟩ := ih
    exact ⟨input, output, hk.trans ((Machine.run_tidy _ _ _ _).of_fault hr)⟩

/-- Between runs nothing is bound. -/
theorem Machine.Idle.bindings {m : Machine} (h : m.Idle) {i : Nat} {level : Level}
    (hl : m.store.levels[i]? = some level) : level.bindings = [] := by
  obtain ⟨input, output, hk⟩ := h.keeps
  obtain ⟨level', hl', he⟩ := Store.levels_of_shape hk.shape hl
  have hempty : level' = .empty none := by
    obtain ⟨hi, rfl⟩ := Array.getElem?_eq_some_iff.mp hl'
    simp [Machine.new, Store.new]
  have hb := congrArg Level.bindings he
  rw [hempty] at hb
  exact List.map_eq_nil_iff.mp hb.symm

theorem Machine.Idle.tracks {m : Machine} (h : m.Idle) (program : Block) (concrete : Prop) :
    Tracks program concrete Store.new #[[]] m.store #[[]] := by
  obtain ⟨input, output, hk⟩ := h.keeps
  have hshape : m.store.shape = Store.new.shape := hk.shape
  have hdepth : m.store.depth = 1 := Store.depth_of_shape hshape
  have htraced := Store.traced_of_shape hshape #[[]]
  have hempty : m.store.traced #[[]] = [] := by
    rw [htraced, Store.traced, Store.visible_new, List.map_nil]
  have hcontext := Store.context_of_shape hshape
  have hnone : ∀ (i : Nat) level, m.store.levels[i]? = some level → ∀ b, b ∉ level.bindings := by
    intro i level hl b hb
    rw [h.bindings hl] at hb
    cases hb
  have hready : Ready concrete Store.new m.store := {
    checked := .new
    checking := Nat.one_pos
    valid := hk.valid .new
    running := by rw [hdepth]; exact Nat.one_pos
    context := hcontext.symm
    locals := (Store.locals_of_shape hshape).symm
    typed := fun i level hl b hb => absurd hb (hnone i level hl b)
    closed := by
      intro before name f after hc
      rw [hcontext, Store.context, Store.visible_new] at hc
      simp at hc }
  refine ⟨hready, rfl, hdepth.symm, htraced.symm,
    fun i level hl b hb => absurd hb (hnone i level hl b), ?_⟩
  intro before d name f after hc
  rw [hempty] at hc
  simp at hc

/-- A run of an accepted program is at every moment as the checker expects it. -/
theorem Visited.accepted {program : Block} (concrete : Prop) {limit steps : Nat} {m : Machine}
    {a : Moment} (hc : program.check = .ok ()) (hconcrete : concrete → Stmt.AllConcrete program)
    (hm : m.Idle) (h : Visited limit steps program m a) : a.Accepted program concrete := by
  induction h with
  | start => exact .block rfl (hm.tracks program concrete) (Block.checkAll_of_check hc) hconcrete
  | enter _ he ih => exact ih.enter he

end Offside
