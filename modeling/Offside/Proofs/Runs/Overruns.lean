import Offside.Proofs.Runs.Visits
import Offside.Proofs.Execution.Discipline
import Offside.Proofs.Typing.Operators
import Offside.Proofs.Typing.Slots

/-!
Where an access goes out of bounds. A fault of this kind comes from a slot that an expression came
to earlier, and that is read or written at one of the moments of the run; no other step raises it.
-/

namespace Offside

/-- The slots that are read or written at a moment, each with the store at that time: what an
expression comes to, and again the left operand when the right one has been evaluated. -/
inductive Moment.Accesses (limit : Nat) : Moment → Store → Slot → Prop
  | result (h : e.eval limit n m = .done (.slot slot) m') :
      Accesses limit ⟨n, .expr e, p, m, o⟩ m'.store slot
  | left (h : lhs.eval limit n m = .done (.slot slot) m')
      (h' : Exec.evalValue (Expr.eval limit n) rhs m' = .done v m'') :
      Accesses limit ⟨n + 1, .expr (.binary lhs op rhs), p, m, o⟩ m''.store slot

/-- At the moment, or at one that is entered from it, a slot is accessed that is out of bounds. -/
inductive Overruns (limit : Nat) : Moment → Prop
  | here (h : a.Accesses limit σ slot) (he : σ.Escapes slot) : Overruns limit a
  | enter (he : Enters limit a b) (h : Overruns limit b) : Overruns limit a

section Operations

variable {e : StoreError} {v w : Value}

theorem UnaryOp.apply_ne_store (op : UnaryOp) : op.apply v ≠ .error (.store e) := by
  unfold apply
  split <;> nofun

theorem Operation.apply_ne_store (op : Operation) : op.apply v w ≠ .error (.store e) := by
  have compare_ne : ∀ (numbers : Float → Float → Bool) (texts : List Char → List Char → Bool),
      compare numbers texts v w ≠ .error (.store e) := by
    intro numbers texts
    unfold compare
    split <;> nofun
  unfold apply
  split
  case h_5 | h_6 => split <;> nofun
  case h_11 | h_12 | h_13 | h_14 => exact compare_ne _ _
  all_goals nofun

namespace Value

theorem position_ne_store {index : Float} {length : Nat} {outside : RuntimeError}
    (h : outside ≠ .store e) : position index length outside ≠ .error (.store e) := by
  intro he
  rcases position_error he with hcause | hcause
  · cases hcause
  · exact h hcause.symm

theorem character_ne_store (s : String) (index : Float) :
    character s index ≠ .error (.store e) := by
  have h : position index s.toList.length .stringIndex ≠ .error (.store e) :=
    position_ne_store nofun
  unfold character
  generalize position index s.toList.length .stringIndex = r at h ⊢
  cases r with
  | ok p => nofun
  | error cause => simpa [Except.map] using h

theorem element_ne_store (items : List Value) (index : Float) :
    element items index ≠ .error (.store e) := by
  have h : position index items.length .arrayIndex ≠ .error (.store e) := position_ne_store nofun
  unfold element
  generalize position index items.length .arrayIndex = r at h ⊢
  cases r with
  | ok p => nofun
  | error cause => simpa [Except.map] using h

theorem ofInput_ne_store (word : String) (t : Ty) : ofInput word t ≠ .error (.store e) := by
  unfold ofInput
  split
  · split
    · nofun
    · split <;> nofun
  · split <;> nofun
  · nofun
  · nofun

end Value

end Operations

namespace Store

variable {s : Store}

theorem lookupFunction_ne_outOfBounds (name : String) :
    s.lookupFunction name ≠ .error .outOfBounds := by
  unfold lookupFunction
  split <;> nofun

theorem resolve_ne_outOfBounds (name : String) : s.resolve name ≠ .error .outOfBounds := by
  unfold resolve
  split <;> nofun

theorem register_ne_outOfBounds (name : String) (entry : Entry) :
    s.register name entry ≠ .error .outOfBounds := by
  intro h
  rw [register_eq_match] at h
  dsimp only at h
  split at h
  · cases h
  · cases h

end Store

namespace Exec

variable {α β : Type} {x : Exec α} {m m' : Machine} {P Q : Prop}

/-- Should the computation go out of bounds, then `P` holds. -/
def Blames (x : Exec α) (m : Machine) (P : Prop) : Prop :=
  x.Ends m (fun _ _ => True) fun f _ => f.cause = .store .outOfBounds → P

namespace Blames

theorem mono (h : x.Blames m P) (hP : P → Q) : x.Blames m Q :=
  Ends.mono h (fun _ _ _ => trivial) fun _ _ hf hc => hP (hf hc)

theorem bind {y : α → Exec β} (hx : x.Blames m P)
    (hy : ∀ a m', x m = .done a m' → (y a).Blames m' P) : (x >>= y).Blames m P :=
  Ends.bind (.intro (fun a m' h => hy a m' h) fun _ _ h => Ends.of_fault hx h)

theorem pure (a : α) : (Pure.pure a : Exec α).Blames m P :=
  Ends.pure trivial

theorem fail {cause : RuntimeError} (h : cause ≠ .store .outOfBounds) :
    (Exec.fail cause : Exec α).Blames m P :=
  Ends.fail fun hc => absurd hc h

theorem ofExcept {r : Except RuntimeError α} (h : r ≠ .error (.store .outOfBounds)) :
    (Exec.ofExcept r).Blames m P := by
  refine Ends.ofExcept (fun _ _ => trivial) fun cause hr hc => absurd hr ?_
  rw [show cause = .store .outOfBounds from hc]
  exact h

theorem lookup {f : Store → Except StoreError α} (h : f m.store = .error .outOfBounds → P) :
    (Exec.lookup f).Blames m P := by
  refine Ends.lookup (fun _ _ => trivial) fun e he hc => h ?_
  rw [he, RuntimeError.store.inj hc]

theorem update {f : Store → Except StoreError Unit × Store}
    {change : Store → Except StoreError Store} (hf : Store.Attempts f change)
    (h : change m.store = .error .outOfBounds → P) : (Exec.update f).Blames m P := by
  refine Ends.update hf (fun _ _ => trivial) fun e he hc => h ?_
  rw [he, RuntimeError.store.inj hc]

theorem onLevel (h : x.Blames { m with store := m.store.newLevel } P) :
    (Exec.onLevel x).Blames m P :=
  Ends.onLevel h

theorem inFrame (scope : Scope)
    (h : x.Blames { m with store := m.store.newFrame scope, depth := m.depth + 1 } P) :
    (Exec.inFrame scope x).Blames m P :=
  Ends.inFrame scope h

end Blames

section Steps

variable {limit n : Nat}
  (he : ∀ e p m o, (Expr.eval limit n e).Blames m (Overruns limit ⟨n, .expr e, p, m, o⟩))
  (hs : ∀ stmt p m o, (Stmt.exec limit n stmt).Blames m (Overruns limit ⟨n, .stmt stmt, p, m, o⟩))
include he

theorem evalValue_blames (e : Expr) (p : Position) (m : Machine) (o : Origins) :
    (evalValue (Expr.eval limit n) e).Blames m (Overruns limit ⟨n, .expr e, p, m, o⟩) := by
  refine .bind (he e p m o) fun ev m' hd => ?_
  cases ev with
  | slot slot => exact .lookup (f := (·.load slot)) fun h => .here (.result hd) (.inl h)
  | value v => exact .pure v

theorem evalAll_blames (es : List Expr) (p : Position) (m : Machine) (o : Origins) :
    (evalAll (Expr.eval limit n) es).Blames m (Overruns limit ⟨n, .args es, p, m, o⟩) := by
  induction es generalizing m with
  | nil => exact .pure []
  | cons e es ih =>
    refine .bind ((evalValue_blames he e p m o).mono (.enter .arg)) fun v m' hd => ?_
    exact .bind ((ih m').mono (.enter (.nextArg hd))) fun vs _ _ => .pure _

omit he
include hs

theorem sequence_blames (stmts : List Stmt) (p : Position) (m : Machine) (o : Origins) :
    (sequence (Stmt.exec limit n) stmts).Blames m (Overruns limit ⟨n, .seq stmts, p, m, o⟩) := by
  induction stmts generalizing p m o with
  | nil => exact .pure _
  | cons stmt stmts ih =>
    refine .bind ((hs stmt p m o).mono (.enter .head)) fun signal m' hd => ?_
    cases signal with
    | next => exact (ih p.next m' _).mono (.enter (.tail hd))
    | «return» v => exact .pure _

theorem block_blames (stmts : Block) (p : Position) (m : Machine) (o : Origins) :
    (block (Stmt.exec limit n) stmts).Blames m (Overruns limit ⟨n, .block stmts, p, m, o⟩) :=
  .onLevel ((sequence_blames hs stmts p _ _).mono (.enter .block))

omit hs

/-- First the parameters are bound, and then comes the body. -/
theorem bindArgs_blames {f : Function} {rest : Exec α} {p : Position}
    (hr : ∀ m o, rest.Blames m (Overruns limit ⟨n, .block f.body, p.inner false, m, o⟩))
    (name : String) (i : Nat) (params : List Param) (values : List Value) (m : Machine)
    (o : Origins) :
    (bindArgs name params values >>= fun _ => rest).Blames m
      (Overruns limit ⟨n, .bind f i params values, p, m, o⟩) := by
  have done : ∀ i params values m o, params = [] ∨ values = [] →
      (Pure.pure () >>= fun _ => rest).Blames m
        (Overruns limit ⟨n, .bind f i params values, p, m, o⟩) := by
    intro i params values m o h
    refine .bind (.pure ()) fun _ m' hd => ?_
    obtain ⟨-, rfl⟩ := pure_done hd
    exact (hr m' o).mono (.enter (.body h))
  induction params generalizing i values m o with
  | nil => exact done i [] values m o (.inl rfl)
  | cons param params ih =>
    cases values with
    | nil => exact done i (param :: params) [] m o (.inr rfl)
    | cons v values =>
      unfold bindArgs
      split
      · case h_1 w hw =>
        rw [bind_assoc]
        refine .bind (.update (.declare _ _) fun h => absurd h (Store.register_ne_outOfBounds _ _))
          fun _ m' hd => ?_
        obtain ⟨s, hreg, rfl⟩ := update_done (.declare _ _) hd
        exact (ih (i + 1) values _ _).mono (.enter (.param hw hreg))
      · exact .bind (.fail nofun) nofun

include hs

theorem body_blames (name : String) (f : Function) (values : List Value) (p : Position)
    (m : Machine) (o : Origins) :
    (body (Stmt.exec limit n) name f values).Blames m
      (Overruns limit ⟨n, .bind f 0 f.params values, p, m, o⟩) := by
  refine bindArgs_blames (fun m o => ?_) name 0 f.params values m o
  refine .bind (block_blames hs f.body _ m o) fun signal _ _ => ?_
  cases signal with
  | next => exact .pure _
  | «return» v => exact .pure _

omit hs

theorem result_blames (ty : Ty) (returned : Option Value) : (result ty returned).Blames m P := by
  unfold result
  split
  · split
    · exact .pure _
    · exact .fail nofun
  · split
    · exact .pure _
    · exact .fail nofun

include he hs

theorem call_blames (name : String) (args : List Expr) (p : Position) (m : Machine) (o : Origins) :
    (call limit (Expr.eval limit n) (Stmt.exec limit n) name args).Blames m
      (Overruns limit ⟨n, .call name args, p, m, o⟩) := by
  refine .bind (.lookup fun h => absurd h (Store.lookupFunction_ne_outOfBounds name))
    fun found m' hd => ?_
  obtain ⟨f, scope⟩ := found
  obtain ⟨hf, rfl⟩ := lookup_done hd
  dsimp only
  split
  · case isTrue hlen =>
    refine .bind ((evalAll_blames he args p m' o).mono (.enter (.args hf hlen)))
      fun values m₁ hargs => ?_
    refine .bind (Ends.depth trivial) fun depth m₂ hd => ?_
    cases hd
    split
    · exact .fail nofun
    · case isFalse hdepth =>
      obtain ⟨q, hq⟩ := m'.store.exists_position o name
      refine .bind (.inFrame scope ?_) fun returned _ _ => result_blames _ _
      exact (body_blames hs name f values q _ o.newLevel).mono
        (.enter (.frame hf hlen hargs (Nat.lt_of_not_le hdepth) hq))
  · exact .fail nofun

omit hs

omit he in
theorem element_blames (container : Evaluated) (index : Float)
    (h : ∀ slot, container = .slot slot → m.store.load slot = .error .outOfBounds → P) :
    (element container index).Blames m P := by
  cases container with
  | slot slot =>
    refine .bind (.lookup (f := (·.load slot)) (h slot rfl)) fun v m' _ => ?_
    cases v with
    | string s =>
      exact .bind (.ofExcept (Value.character_ne_store s index)) fun _ _ _ => .pure _
    | array _ items =>
      exact .bind (.ofExcept (Value.position_ne_store nofun)) fun _ _ _ => .pure _
    | _ => exact .fail nofun
  | value v =>
    cases v with
    | string s =>
      exact .bind (.ofExcept (Value.character_ne_store s index)) fun _ _ _ => .pure _
    | array _ items =>
      exact .bind (.ofExcept (Value.element_ne_store items index)) fun _ _ _ => .pure _
    | _ => exact .fail nofun

theorem index_blames (lhs rhs : Expr) (p : Position) (m : Machine) (o : Origins) :
    (index (Expr.eval limit n) lhs rhs).Blames m
      (Overruns limit ⟨n + 1, .expr (.binary lhs .index rhs), p, m, o⟩) := by
  refine .bind ((he lhs p m o).mono (.enter .left)) fun container m₁ hl => ?_
  refine .bind ((evalValue_blames he rhs p m₁ o).mono (.enter (.indexRight hl)))
    fun v m₂ hr => ?_
  split
  · refine element_blames container _ fun slot hslot h => ?_
    rw [hslot] at hl
    exact .here (.left hl hr) (.inl h)
  · exact .fail nofun

theorem assign_blames (lhs : Expr) (base : Option Operation) (rhs : Expr) (p : Position)
    (m : Machine) (o : Origins) :
    (assign (Expr.eval limit n) lhs base rhs).Blames m
      (Overruns limit ⟨n + 1, .expr (.binary lhs (.assign base) rhs), p, m, o⟩) := by
  refine .bind ((he lhs p m o).mono (.enter .left)) fun ev m₁ hl => ?_
  cases ev with
  | value v => exact .bind (.fail nofun) nofun
  | slot slot =>
    refine .bind (.pure slot) fun target m₁' hd => ?_
    obtain ⟨rfl, rfl⟩ := pure_done hd
    refine .bind ((evalValue_blames he rhs p m₁' o).mono (.enter (.assignRight hl)))
      fun v m₂ hr => ?_
    have store : ∀ new, (update (·.put target new) >>= fun _ =>
        Pure.pure (Evaluated.slot target)).Blames m₂
        (Overruns limit ⟨n + 1, .expr (.binary lhs (.assign base) rhs), p, m, o⟩) := fun new =>
      .bind (.update (.put target new) fun h => .here (.left hl hr) (.inr ⟨new, h⟩))
        fun _ _ _ => .pure _
    cases base with
    | none =>
      refine .bind (.pure v) fun new m₃ hd => ?_
      obtain ⟨rfl, rfl⟩ := pure_done hd
      exact store new
    | some op =>
      refine .bind (.lookup (f := (·.load target)) fun h => .here (.left hl hr) (.inl h))
        fun old m₃ hd => ?_
      obtain ⟨-, rfl⟩ := lookup_done hd
      refine .bind (.ofExcept (Operation.apply_ne_store op)) fun new m₃ hd => ?_
      obtain ⟨-, rfl⟩ := ofExcept_done hd
      exact store new

include hs

theorem evalStep_blames (e : Expr) (p : Position) (m : Machine) (o : Origins) :
    (evalStep limit (Expr.eval limit n) (Stmt.exec limit n) e).Blames m
      (Overruns limit ⟨n + 1, .expr e, p, m, o⟩) := by
  match e with
  | .boolean _ | .number _ | .string _ => exact .pure _
  | .list es =>
    exact .bind ((evalAll_blames he es p m o).mono (.enter .elements)) fun _ _ _ => .pure _
  | .identifier name =>
    exact .bind (.lookup (f := (·.resolve name)) fun h => absurd h (Store.resolve_ne_outOfBounds name))
      fun _ _ _ => .pure _
  | .unary op arg =>
    refine .bind ((evalValue_blames he arg p m o).mono (.enter .unary)) fun v m' _ => ?_
    exact .bind (.ofExcept (UnaryOp.apply_ne_store op)) fun _ _ _ => .pure _
  | .binary lhs (.assign base) rhs => exact assign_blames he lhs base rhs p m o
  | .binary lhs .index rhs => exact index_blames he lhs rhs p m o
  | .binary lhs (.operation op) rhs =>
    refine .bind ((evalValue_blames he lhs p m o).mono (.enter .left)) fun v m₁ hl => ?_
    refine .bind ((evalValue_blames he rhs p m₁ o).mono (.enter (.right hl))) fun w m₂ _ => ?_
    exact .bind (.ofExcept (Operation.apply_ne_store op)) fun _ _ _ => .pure _
  | .call name args =>
    refine .bind ((call_blames he hs name args p m o).mono (.enter .call)) fun returned m' _ => ?_
    cases returned with
    | some v => exact .pure _
    | none => exact .fail nofun

omit he hs

theorem initialValue_blames (name : String) (ty : Option Ty) (value : Option Value) :
    (initialValue name ty value).Blames m P := by
  unfold initialValue
  extract_lets fit
  have hfit (slot : Ty) (m : Machine) : (fit slot).Blames m P := by
    unfold fit
    dsimp only
    split
    · exact .pure _
    · exact .fail (by simp)
  split
  · exact .bind (.pure _) fun a m' _ => hfit a m'
  · split
    · exact .bind (.pure _) fun a m' _ => hfit a m'
    · exact .bind (.fail (by simp)) fun a m' _ => hfit a m'
  · exact .bind (.fail (by simp)) fun a m' _ => hfit a m'

include he

theorem evalOptional_blames (value : Option Expr) (p : Position) (m : Machine) (o : Origins)
    (h : ∀ e, value = some e → Overruns limit ⟨n, .expr e, p, m, o⟩ → P) :
    (evalOptional (Expr.eval limit n) value).Blames m P := by
  cases value with
  | none => exact .pure _
  | some e =>
    exact .bind ((evalValue_blames he e p m o).mono (h e rfl)) fun _ _ _ => .pure _

theorem evalCondition_blames (e : Expr) (p : Position) (m : Machine) (o : Origins) :
    (evalCondition (Expr.eval limit n) e).Blames m (Overruns limit ⟨n, .expr e, p, m, o⟩) := by
  refine .bind (evalValue_blames he e p m o) fun v _ _ => ?_
  split
  · exact .pure _
  · exact .fail nofun

theorem readInto_blames (target : Expr) (p : Position) (m : Machine) (o : Origins) :
    (readInto (Expr.eval limit n) target).Blames m
      (Overruns limit ⟨n, .expr target, p, m, o⟩) := by
  refine .bind (he target p m o) fun ev m₁ hl => ?_
  cases ev with
  | value v => exact .bind (.fail nofun) nofun
  | slot slot =>
    refine .bind (.pure slot) fun place m₁' hd => ?_
    obtain ⟨rfl, rfl⟩ := pure_done hd
    refine .bind (.lookup (f := (·.load place)) fun h => .here (.result hl) (.inl h))
      fun old m₂ hd => ?_
    obtain ⟨-, rfl⟩ := lookup_done hd
    refine .bind (Ends.readWord (fun _ _ => trivial) fun _ _ => nofun) fun word m₃ hd => ?_
    have hstore : m₃.store = m₂.store :=
      (Ends.readWord (Q := fun _ m' => m'.store = m₂.store) (R := fun _ _ => True)
        (fun _ _ => rfl) fun _ _ => trivial).of_done hd
    refine .bind (.ofExcept (Value.ofInput_ne_store word old.ty)) fun new m₄ hd => ?_
    obtain ⟨-, rfl⟩ := ofExcept_done hd
    refine .update (.put place new) fun h => .here (.result hl) (.inr ⟨new, ?_⟩)
    rw [← hstore]
    exact h

include hs

/-- The machine at the beginning differs from that of the moment in its location at most. -/
theorem repeatWhile_blames {loc : Location} {e : Expr} {stmts : Block} (k : Nat) (p : Position)
    (m₀ m : Machine) (hm : { m₀ with location := some loc } = m.located (.while loc e stmts))
    (o : Origins) :
    (repeatWhile loc (evalCondition (Expr.eval limit n) e) (block (Stmt.exec limit n) stmts)
      k).Blames m₀ (Overruns limit ⟨n + 1, .stmt (.while loc e stmts), p, m, o⟩) := by
  induction k generalizing m₀ m with
  | zero => exact Ends.exhausted
  | succ k ih =>
    refine .bind (Ends.setLocation trivial) fun _ m₁ hd => ?_
    obtain rfl : m₁ = m.located (.while loc e stmts) := by
      rw [← hm]
      cases hd
      rfl
    refine .bind ((evalCondition_blames he e p _ o).mono (.enter (.operand rfl)))
      fun again m₂ hc => ?_
    cases again with
    | false => exact .pure _
    | true =>
      refine .bind ((block_blames hs stmts _ m₂ o).mono (.enter (.whileBody hc)))
        fun signal m₃ hb => ?_
      cases signal with
      | next => exact (ih m₃ m₃ rfl).mono (.enter (.whileAgain hc hb))
      | «return» v => exact .pure _

omit he

theorem forEach_blames {name : String} {element : Ty} {stmts : Block} (items : List Value)
    (p : Position) (m : Machine) (o : Origins) :
    (forEach name element (block (Stmt.exec limit n) stmts) items).Blames m
      (Overruns limit ⟨n, .each name element items stmts, p, m, o⟩) := by
  induction items generalizing m with
  | nil => exact .pure _
  | cons item items ih =>
    have hitem : (update (·.declare name (.variable ⟨element, some item⟩)) >>= fun _ =>
        block (Stmt.exec limit n) stmts).Blames { m with store := m.store.newLevel }
        (Overruns limit ⟨n, .each name element (item :: items) stmts, p, m, o⟩) := by
      refine .bind (.update (.declare _ _) fun h => absurd h (Store.register_ne_outOfBounds _ _)) fun _ m₁ hd => ?_
      obtain ⟨s, hreg, rfl⟩ := update_done (.declare _ _) hd
      exact (block_blames hs stmts _ _ _).mono fun h => .enter .item (.enter (.itemBody hreg) h)
    refine .bind (.onLevel hitem) fun signal m₁ hd => ?_
    cases signal with
    | next => exact (ih m₁).mono (.enter (.nextItem hd))
    | «return» v => exact .pure _

include he

theorem execStep_blames (stmt : Stmt) (p : Position) (m : Machine) (o : Origins) :
    (execStep limit (Expr.eval limit n) (Stmt.exec limit n) n stmt).Blames m
      (Overruns limit ⟨n + 1, .stmt stmt, p, m, o⟩) := by
  refine .bind (Ends.setLocation trivial) fun _ m₁ hd => ?_
  obtain rfl : m₁ = m.located stmt := by
    cases hd
    rfl
  have operand : ∀ e, stmt.operand? = some e →
      Overruns limit ⟨n, .expr e, p, m.located stmt, o⟩ →
      Overruns limit ⟨n + 1, .stmt stmt, p, m, o⟩ :=
    fun e h => .enter (.operand h)
  match stmt with
  | .declare _ name ty initializer =>
    refine .bind (evalOptional_blames he initializer p _ o operand) fun value _ _ => ?_
    refine .bind (initialValue_blames name ty value) fun a m' _ => ?_
    exact .bind (.update (.declare _ _) fun h => absurd h (Store.register_ne_outOfBounds _ _))
      fun _ _ _ => .pure _
  | .define _ name params result body =>
    exact .bind (.update (.declare _ _) fun h => absurd h (Store.register_ne_outOfBounds _ _))
      fun _ _ _ => .pure _
  | .expr _ e =>
    cases e with
    | call name args =>
      exact .bind ((call_blames he hs name args p _ o).mono (.enter .callStmt)) fun _ _ _ => .pure _
    | _ => exact .bind ((he _ p _ o).mono (operand _ rfl)) fun _ _ _ => .pure _
  | .return _ value =>
    exact .bind (evalOptional_blames he value p _ o operand) fun _ _ _ => .pure _
  | .print _ e =>
    refine .bind ((evalValue_blames he e p _ o).mono (operand e rfl)) fun v _ _ => ?_
    exact .bind (Ends.write (fun _ => trivial) fun _ => nofun) fun _ _ _ => .pure _
  | .read _ target =>
    exact .bind ((readInto_blames he target p _ o).mono (operand target rfl)) fun _ _ _ => .pure _
  | .cond loc condition thenBlock elseBlock =>
    refine .bind ((evalCondition_blames he condition p _ o).mono (operand condition rfl))
      fun b m' hc => ?_
    cases b with
    | true => exact (block_blames hs thenBlock _ m' o).mono (.enter (.thenBlock hc))
    | false =>
      cases elseBlock with
      | none => exact .pure _
      | some stmts => exact (block_blames hs stmts _ m' o).mono (.enter (.elseBlock hc))
  | .while loc condition body => exact repeatWhile_blames he hs n p (m.located _) m rfl o
  | .for _ name range body =>
    refine .bind ((evalValue_blames he range p _ o).mono (operand range rfl)) fun v m' hd => ?_
    split
    · case h_1 element items hv =>
      exact (forEach_blames hs items p m' o).mono (.enter (.forItems hd hv))
    · exact .fail nofun

end Steps

end Exec

open Exec in
theorem eval_exec_blames (limit n : Nat) :
    (∀ e p m o, (Expr.eval limit n e).Blames m (Overruns limit ⟨n, .expr e, p, m, o⟩)) ∧
      ∀ stmt p m o, (Stmt.exec limit n stmt).Blames m (Overruns limit ⟨n, .stmt stmt, p, m, o⟩) := by
  induction n with
  | zero => exact ⟨fun _ _ _ _ => Ends.exhausted, fun _ _ _ _ => Ends.exhausted⟩
  | succ n ih =>
    obtain ⟨he, hs⟩ := ih
    exact ⟨evalStep_blames he hs, execStep_blames he hs⟩

/-- Should a run go out of bounds, then by an access at one of its moments. -/
theorem Machine.run_overruns {limit steps : Nat} {program : Block} {m m' : Machine}
    {f : RuntimeFault} (hr : m.run limit steps program = .fault f m')
    (hf : f.cause = .store .outOfBounds) :
    Overruns limit ⟨steps, .block program, ⟨.program, 0⟩, m, #[[]]⟩ := by
  have hb := Exec.block_blames (eval_exec_blames limit steps).2 program ⟨.program, 0⟩ m #[[]]
  unfold run at hr
  split at hr
  · unfold Exec.flush at hr
    split at hr
    · cases hr
    · cases hr
      cases hf
  · case h_2 fault m₁ hm =>
    cases hr
    exact hb.of_fault hm hf
  · cases hr

/-- The access is at a moment that the run visits. -/
theorem Visited.overruns {limit steps : Nat} {program : Block} {m : Machine} {a : Moment}
    (hv : Visited limit steps program m a) (h : Overruns limit a) :
    ∃ b σ slot, Visited limit steps program m b ∧ b.Accesses limit σ slot ∧ σ.Escapes slot := by
  induction h with
  | here h he => exact ⟨_, _, _, hv, h, he⟩
  | enter he _ ih => exact ih (hv.enter he)

end Offside
