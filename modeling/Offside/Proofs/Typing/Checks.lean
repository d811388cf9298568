import Offside.Proofs.Results
import Offside.Proofs.Typing.Tagging
import Offside.Proofs.Typing.Rules

/-!
What an accepted expression or statement tells of its parts.
-/

namespace Offside

attribute [simp] Expr.check Expr.checkElements Expr.checkArgs Stmt.check Stmt.checkAll Stmt.bindAll

section Results

variable {ε ε' α β : Type}

theorem liftStore_ok {x : Except StoreError α} {a : α} (h : liftStore x = .ok a) : x = .ok a :=
  mapError_ok h

theorem located_ok {loc : Location} {x : Except SemanticError α} {a : α}
    (h : Stmt.located loc x = .ok a) : x = .ok a :=
  mapError_ok h

end Results

namespace Expr

variable {s : Store} {t : Typed}

theorem check_list {es : List Expr} (h : (Expr.list es).check s = .ok t) :
    ∃ types, checkElements s es = .ok types ∧ t = ⟨.ofListLiteral types, .value⟩ := by
  rw [check] at h
  obtain ⟨types, htypes, h⟩ := bind_ok h
  exact ⟨types, htypes, (pure_ok h).symm⟩

theorem check_identifier {name : String} (h : (Expr.identifier name).check s = .ok t) :
    ∃ v, s.lookupVariable name = .ok v ∧ t = ⟨v.ty, .slot⟩ := by
  rw [check] at h
  obtain ⟨v, hv, h⟩ := bind_ok h
  exact ⟨v, liftStore_ok hv, (pure_ok h).symm⟩

theorem check_unary {op : UnaryOp} {arg : Expr} (h : (Expr.unary op arg).check s = .ok t) :
    ∃ a ty, arg.check s = .ok a ∧ op.resultType? a.ty = some ty ∧ t = ⟨ty, .value⟩ := by
  rw [check] at h
  obtain ⟨a, ha, h⟩ := bind_ok h
  split at h
  · case h_1 ty hty => exact ⟨a, ty, ha, hty, (pure_ok h).symm⟩
  · cases h

theorem check_binary {lhs rhs : Expr} {op : BinaryOp} (h : (Expr.binary lhs op rhs).check s = .ok t) :
    ∃ left right, lhs.check s = .ok left ∧ rhs.check s = .ok right ∧
      op.check lhs left right = .ok t := by
  rw [check] at h
  obtain ⟨left, hl, h⟩ := bind_ok h
  obtain ⟨right, hr, h⟩ := bind_ok h
  exact ⟨left, right, hl, hr, h⟩

theorem check_call {name : String} {args : List Expr} (h : (Expr.call name args).check s = .ok t) :
    ∃ f scope, s.lookupFunction name = .ok (f, scope) ∧ args.length = f.params.length ∧
      checkArgs s name f.params args = .ok () ∧ t = ⟨f.returns, .value⟩ := by
  rw [check] at h
  obtain ⟨⟨f, scope⟩, hf, h⟩ := bind_ok h
  dsimp only at h
  split at h
  · case isTrue hlen =>
    obtain ⟨_, ha, h⟩ := bind_ok h
    exact ⟨f, scope, liftStore_ok hf, hlen, ha, (pure_ok h).symm⟩
  · cases h

theorem checkElements_ok {es : List Expr} {types : List Ty}
    (h : checkElements s es = .ok types) :
    List.Forall₂ (fun e ty => ty ≠ .none ∧ ∃ d, e.check s = .ok ⟨ty, d⟩) es types := by
  induction es generalizing types with
  | nil =>
    rw [checkElements] at h
    cases h
    exact .nil
  | cons e es ih =>
    rw [checkElements] at h
    obtain ⟨t, ht, h⟩ := bind_ok h
    split at h
    · cases h
    · case isFalse hn =>
      obtain ⟨types', htypes, h⟩ := bind_ok h
      cases pure_ok h
      exact .cons ⟨hn, t.denotes, ht⟩ (ih htypes)

theorem checkArgs_ok {function : String} {params : List Param} {es : List Expr}
    (hlen : es.length = params.length) (h : checkArgs s function params es = .ok ()) :
    List.Forall₂ (fun e p => ∃ t, e.check s = .ok t ∧ p.ty.accepts t.ty) es params := by
  induction es generalizing params with
  | nil =>
    cases params with
    | nil => exact .nil
    | cons p params => cases hlen
  | cons e es ih =>
    cases params with
    | nil => cases hlen
    | cons p params =>
      rw [checkArgs] at h
      obtain ⟨t, ht, h⟩ := bind_ok h
      split at h
      · case isTrue ha => exact .cons ⟨t, ht, ha⟩ (ih (by simpa using hlen) h)
      · cases h

end Expr

namespace BinaryOp

variable {lhs : Expr} {left right t : Typed}

theorem check_assign (h : (BinaryOp.assign none).check lhs left right = .ok t) :
    left.denotes = .slot ∧ left.ty.accepts right.ty ∧ t = ⟨left.ty, .slot⟩ := by
  simp only [check] at h
  split at h
  · cases h
  · case isFalse hd =>
    split at h
    · case isTrue ha =>
      cases h
      cases hl : left.denotes with
      | slot => exact ⟨rfl, ha, rfl⟩
      | value => exact absurd hl hd
    · cases h

theorem check_assign_of {op : Operation} (h : (BinaryOp.assign (some op)).check lhs left right = .ok t) :
    left.denotes = .slot ∧ op.resultType? left.ty right.ty = some left.ty ∧
      t = ⟨left.ty, .slot⟩ := by
  simp only [check] at h
  split at h
  · cases h
  · case isFalse hd =>
    split at h
    · case isTrue ha =>
      cases h
      cases hl : left.denotes with
      | slot => exact ⟨rfl, by simpa using ha, rfl⟩
      | value => exact absurd hl hd
    · cases h

theorem check_index (h : BinaryOp.index.check lhs left right = .ok t) :
    left.element? = some t ∧ right.ty = .number := by
  simp only [check] at h
  split at h
  · case h_1 element he =>
    split at h
    · case isTrue hn =>
      cases h
      exact ⟨he, hn⟩
    · cases h
  · cases h

theorem check_operation {op : Operation} (h : (BinaryOp.operation op).check lhs left right = .ok t) :
    ∃ ty, op.resultType? left.ty right.ty = some ty ∧ t = ⟨ty, .value⟩ := by
  simp only [check] at h
  split at h
  · case h_1 ty hty =>
    cases h
    exact ⟨ty, hty, rfl⟩
  · cases h

end BinaryOp

theorem Typed.element?_cases {container t : Typed} (h : container.element? = some t) :
    container.ty = .string ∧ t = ⟨.string, .value⟩ ∨
      container.ty.stored = .array t.ty ∧ container.ty ≠ .list .mixed ∧
        t.denotes = container.denotes := by
  unfold element? at h
  split at h
  · case h_1 hc =>
    cases h
    exact .inl ⟨hc, rfl⟩
  · case h_2 element hc =>
    cases h
    exact .inr ⟨by rw [hc]; rfl, by rw [hc]; nofun, rfl⟩
  · cases h
  · cases h
  · case h_5 element _ hm hc =>
    cases h
    refine .inr ⟨by rw [hc]; rfl, fun he => ?_, rfl⟩
    rw [hc] at he
    cases he
    exact hm rfl
  · cases h

namespace Stmt

variable {s s' : Store} {returns : Option Ty} {loc : Location}

/-- Where the type of a declared variable comes from. -/
theorem declaredType_cases {name : String} {ty : Option Ty} {initializer : Option Expr} {t : Ty}
    (h : declaredType s name ty initializer = .ok t) :
    (∃ e source, ty = some t ∧ initializer = some e ∧ e.check s = .ok source ∧
        t.accepts source.ty) ∨
      (ty = some t ∧ initializer = none) ∨
      ∃ e source, ty = none ∧ initializer = some e ∧ e.check s = .ok source ∧
        source.ty.concretize? = some t := by
  unfold declaredType at h
  split at h
  · case h_1 u e =>
    obtain ⟨source, hs, h⟩ := bind_ok h
    split at h
    · case isTrue ha =>
      cases pure_ok h
      exact .inl ⟨e, source, rfl, rfl, hs, ha⟩
    · cases h
  · cases pure_ok h
    exact .inr (.inl ⟨rfl, rfl⟩)
  · case h_3 e =>
    obtain ⟨source, hs, h⟩ := bind_ok h
    split at h
    · case h_1 u hu =>
      cases pure_ok h
      exact .inr (.inr ⟨e, source, rfl, rfl, hs, hu⟩)
    · cases h
  · cases h

theorem check_declare {name : String} {ty : Option Ty} {initializer : Option Expr}
    (h : (Stmt.declare loc name ty initializer).check s returns = .ok s') :
    ∃ t, declaredType s name ty initializer = .ok t ∧
      s.register name (.variable ⟨t, none⟩) = .ok s' := by
  rw [check] at h
  obtain ⟨t, ht, h⟩ := bind_ok (located_ok h)
  exact ⟨t, ht, liftStore_ok h⟩

theorem check_define {name : String} {params : List Param} {result : Ty} {body : List Stmt}
    (h : (Stmt.define loc name params result body).check s returns = .ok s') :
    ∃ frame, bindFunction s name ⟨params, result, body⟩ = .ok (s', frame) ∧
      checkAll frame.newLevel (some result) body = .ok () := by
  rw [check] at h
  obtain ⟨⟨s₁, frame⟩, hf, h⟩ := bind_ok h
  obtain ⟨_, hb, h⟩ := bind_ok h
  cases pure_ok h
  exact ⟨frame, located_ok hf, hb⟩

theorem bindFunction_ok {name : String} {f : Function} {frame : Store}
    (h : bindFunction s name f = .ok (s', frame)) :
    (f.params.map Param.name).Nodup ∧ s.register name (.function f) = .ok s' ∧
      ∃ g scope, s'.lookupFunction name = .ok (g, scope) ∧
        bindAll (s'.newFrame scope) f.params = .ok frame := by
  unfold bindFunction at h
  split at h
  · case isTrue hn =>
    obtain ⟨s₁, hr, h⟩ := bind_ok h
    obtain ⟨⟨g, scope⟩, hl, h⟩ := bind_ok h
    obtain ⟨frame', hb, h⟩ := bind_ok h
    cases pure_ok h
    exact ⟨hn, liftStore_ok hr, g, scope, liftStore_ok hl, hb⟩
  · cases h

theorem bindAll_cons {p : Param} {ps : List Param} (h : bindAll s (p :: ps) = .ok s') :
    ∃ s₁, s.register p.name (.variable ⟨p.ty, none⟩) = .ok s₁ ∧ bindAll s₁ ps = .ok s' := by
  rw [bindAll] at h
  obtain ⟨s₁, hr, h⟩ := bind_ok h
  exact ⟨s₁, liftStore_ok hr, h⟩

theorem check_expr {e : Expr} (h : (Stmt.expr loc e).check s returns = .ok s') :
    s' = s ∧ ∃ t, e.check s = .ok t := by
  rw [check] at h
  obtain ⟨t, ht, h⟩ := bind_ok h
  exact ⟨(pure_ok h).symm, t, located_ok ht⟩

theorem check_return {value : Option Expr} (h : (Stmt.return loc value).check s returns = .ok s') :
    s' = s ∧ checkReturn s returns value = .ok () := by
  rw [check] at h
  obtain ⟨_, hr, h⟩ := bind_ok h
  exact ⟨(pure_ok h).symm, located_ok hr⟩

theorem checkReturn_cases {value : Option Expr} (h : checkReturn s returns value = .ok ()) :
    returns = some .none ∧ value = none ∨
      ∃ ty e source, returns = some ty ∧ value = some e ∧ e.check s = .ok source ∧
        ty.accepts source.ty := by
  unfold checkReturn at h
  split at h
  · cases h
  · exact .inl ⟨rfl, rfl⟩
  · cases h
  · cases h
  · case h_5 ty e _ =>
    obtain ⟨source, hs, h⟩ := bind_ok h
    split at h
    · case isTrue ha => exact .inr ⟨ty, e, source, rfl, rfl, hs, ha⟩
    · cases h

theorem check_print {e : Expr} (h : (Stmt.print loc e).check s returns = .ok s') :
    s' = s ∧ ∃ t, e.check s = .ok t ∧ t.ty.isPrimitive := by
  rw [check] at h
  obtain ⟨_, hp, h⟩ := bind_ok h
  obtain ⟨t, ht, hp⟩ := bind_ok (located_ok hp)
  split at hp
  · case isTrue hprim => exact ⟨(pure_ok h).symm, t, ht, hprim⟩
  · cases hp

theorem check_read {target : Expr} (h : (Stmt.read loc target).check s returns = .ok s') :
    s' = s ∧ ∃ t, target.check s = .ok t ∧ t.ty.isPrimitive ∧ t.denotes = .slot := by
  rw [check] at h
  obtain ⟨_, hp, h⟩ := bind_ok h
  obtain ⟨t, ht, hp⟩ := bind_ok (located_ok hp)
  split at hp
  · cases hp
  · case isFalse hprim =>
    split at hp
    · cases hp
    · case isFalse hd =>
      refine ⟨(pure_ok h).symm, t, ht, by simpa using hprim, ?_⟩
      cases hl : t.denotes with
      | slot => rfl
      | value => exact absurd hl hd

theorem checkCondition_ok {e : Expr} (h : checkCondition s e = .ok ()) :
    ∃ t, e.check s = .ok t ∧ t.ty = .boolean := by
  unfold checkCondition at h
  obtain ⟨t, ht, h⟩ := bind_ok h
  split at h
  · case isTrue hb => exact ⟨t, ht, hb⟩
  · cases h

theorem check_cond {condition : Expr} {thenBlock : List Stmt} {elseBlock : Option (List Stmt)}
    (h : (Stmt.cond loc condition thenBlock elseBlock).check s returns = .ok s') :
    s' = s ∧ (∃ t, condition.check s = .ok t ∧ t.ty = .boolean) ∧
      checkAll s.newLevel returns thenBlock = .ok () ∧
      ∀ block, elseBlock = some block → checkAll s.newLevel returns block = .ok () := by
  cases elseBlock with
  | none =>
    rw [check] at h
    obtain ⟨_, hc, h⟩ := bind_ok h
    obtain ⟨_, ht, h⟩ := bind_ok h
    exact ⟨(pure_ok h).symm, checkCondition_ok (located_ok hc), ht, nofun⟩
  | some block =>
    rw [check] at h
    obtain ⟨_, hc, h⟩ := bind_ok h
    obtain ⟨_, ht, h⟩ := bind_ok h
    obtain ⟨_, he, h⟩ := bind_ok h
    refine ⟨(pure_ok h).symm, checkCondition_ok (located_ok hc), ht, fun block' hb => ?_⟩
    cases hb
    exact he

theorem check_while {condition : Expr} {body : List Stmt}
    (h : (Stmt.while loc condition body).check s returns = .ok s') :
    s' = s ∧ (∃ t, condition.check s = .ok t ∧ t.ty = .boolean) ∧
      checkAll s.newLevel returns body = .ok () := by
  rw [check] at h
  obtain ⟨_, hc, h⟩ := bind_ok h
  obtain ⟨_, hb, h⟩ := bind_ok h
  exact ⟨(pure_ok h).symm, checkCondition_ok (located_ok hc), hb⟩

theorem check_for {name : String} {range : Expr} {body : List Stmt}
    (h : (Stmt.for loc name range body).check s returns = .ok s') :
    s' = s ∧ ∃ element frame, elementType s range = .ok element ∧
      s.newLevel.register name (.variable ⟨element, none⟩) = .ok frame ∧
      checkAll frame.newLevel returns body = .ok () := by
  rw [check] at h
  obtain ⟨frame, hf, h⟩ := bind_ok h
  obtain ⟨_, hb, h⟩ := bind_ok h
  obtain ⟨element, he, hf⟩ := bind_ok (located_ok hf)
  exact ⟨(pure_ok h).symm, element, frame, he, liftStore_ok hf, hb⟩

theorem elementType_cases {range : Expr} {element : Ty} (h : elementType s range = .ok element) :
    ∃ t, range.check s = .ok t ∧
      (t.ty = .string ∧ element = .string ∨
        t.ty.stored = .array element ∧ t.ty ≠ .list .mixed) := by
  unfold elementType at h
  obtain ⟨t, ht, h⟩ := bind_ok h
  refine ⟨t, ht, ?_⟩
  split at h
  · case h_1 hs => exact .inl ⟨hs, (pure_ok h).symm⟩
  · cases h
  · cases h
  · case h_4 hs =>
    cases pure_ok h
    exact .inr ⟨by rw [hs]; rfl, by rw [hs]; nofun⟩
  · case h_5 hm hs =>
    cases pure_ok h
    refine .inr ⟨by rw [hs]; rfl, fun he => ?_⟩
    rw [hs] at he
    cases he
    exact hm rfl
  · cases h

theorem checkAll_cons {stmt : Stmt} {stmts : List Stmt}
    (h : checkAll s returns (stmt :: stmts) = .ok ()) :
    ∃ s', stmt.check s returns = .ok s' ∧ checkAll s' returns stmts = .ok () := by
  rw [checkAll] at h
  exact bind_ok h

end Stmt

end Offside
