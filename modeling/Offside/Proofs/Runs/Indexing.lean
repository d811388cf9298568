import Offside.Proofs.Execution.Purity
import Offside.Proofs.Execution.Writing
import Offside.Proofs.Runs.Invariants
import Offside.Proofs.Runs.Limits

/-!
What an index selects. In an array that is in a slot, it leads to another slot; from an array that
is only a value, the item is taken out. Both come to the same, also after several indices, and also
where an index is refused.
-/

namespace Offside

/-- The expression with indices behind it. -/
def Expr.indexed (e : Expr) (indices : List Expr) : Expr :=
  indices.foldl (fun e i => .binary e .index i) e

theorem Expr.size_le_indexed (e : Expr) (indices : List Expr) :
    sizeOf e + sizeOf indices ≤ sizeOf (e.indexed indices) + 1 := by
  induction indices generalizing e with
  | nil => simp [indexed]
  | cons i indices ih =>
    have := ih (.binary e .index i)
    rw [Expr.binary.sizeOf_spec] at this
    rw [List.cons.sizeOf_spec]
    exact Nat.le_trans (by omega) this

/-- What an expression came to, as a value. -/
def Evaluated.Denotes (s : Store) (v : Value) : Evaluated → Prop
  | .slot place => s.load place = .ok v
  | .value w => w = v

theorem Evaluated.denotes_value (s : Store) (v : Value) : (Evaluated.value v).Denotes s v :=
  rfl

namespace Exec

/-- Evaluate an index, and go to what it selects. -/
def elementAt (eval : Expr → Exec Evaluated) (container : Evaluated) (i : Expr) :
    Exec Evaluated := do
  match (← evalValue eval i).asNumber? with
  | some i => element container i
  | none => fail .invalidOperands

/-- Evaluate indices one after the other, each for what the ones before it selected. -/
def follow (eval : Expr → Exec Evaluated) (container : Evaluated) (indices : List Expr) :
    Exec Evaluated :=
  indices.foldlM (elementAt eval) container

/-- The computation leaves the machine as it is. It comes to something with the value, or to the
fault. -/
def Selects (x : Exec Evaluated) (m : Machine) : Except RuntimeError Value → Prop
  | .ok v => ∃ ev : Evaluated, x m = .done ev m ∧ ev.Denotes m.store v
  | .error cause => x m = fail cause m

variable {α : Type} {m : Machine} {v : Value} {r : Except RuntimeError Value}

theorem valueOf_denotes {ev : Evaluated} (h : ev.Denotes m.store v) :
    valueOf ev m = .done v m := by
  cases ev with
  | slot place =>
    change lookup (·.load place) m = .done v m
    simp only [lookup, show m.store.load place = .ok v from h]
  | value w =>
    cases h
    rfl

theorem element_of_denotes {container : Evaluated} (h : container.Denotes m.store v) (i : Float) :
    element container i m = ofExcept (container.item i v) m := by
  rw [element_eq]
  exact bind_of_done (valueOf_denotes h)

namespace Selects

theorem of_eq {x x' : Exec Evaluated} (h : Selects x m r) (he : x' m = x m) : Selects x' m r := by
  cases r with
  | ok v =>
    obtain ⟨ev, hx, hev⟩ := h
    exact ⟨ev, he.trans hx, hev⟩
  | error cause => exact he.trans h

theorem after {x : Exec α} {y : α → Exec Evaluated} {a : α} (hx : x m = .done a m)
    (hy : Selects (y a) m r) : Selects (x >>= y) m r :=
  hy.of_eq (bind_of_done hx)

theorem fault {x : Exec α} {y : α → Exec Evaluated} {cause : RuntimeError}
    (hx : x m = fail cause m) : Selects (x >>= y) m (.error cause) :=
  bind_of_fault hx

/-- Slot or not, an index selects the same. -/
theorem element {container : Evaluated} (h : container.Denotes m.store v) (i : Float) :
    Selects (Exec.element container i) m (v.item i) := by
  refine of_eq ?_ (element_of_denotes h i)
  have hvalue : Selects (ofExcept ((v.item i).map .value)) m (v.item i) := by
    cases v.item i with
    | ok w => exact ⟨.value w, rfl, rfl⟩
    | error cause => rfl
  cases container with
  | value w => exact hvalue
  | slot place =>
    cases v with
    | array element items =>
      -- the item has a slot of its own, where it can be read
      clear hvalue
      unfold Value.item Value.element Evaluated.item
      dsimp only
      cases Value.position i items.length .arrayIndex with
      | error cause => rfl
      | ok p => exact ⟨_, rfl, Store.load_index h (List.getElem?_eq_getElem p.isLt)⟩
    | _ => exact hvalue

/-- An index has to be a number. -/
theorem elementAt {i : Expr} (hi : i.Inert) (limit : Nat) (m : Machine) (v : Value) :
    ∃ r, ∀ container : Evaluated, container.Denotes m.store v → ∀ n, sizeOf i ≤ n →
      Selects (Exec.elementAt (Expr.eval limit n) container i) m r := by
  obtain ⟨r, hr⟩ := (hi.steady limit m).evalValue
  cases r with
  | error cause => exact ⟨.error cause, fun container _ n hn => fault (hr n hn)⟩
  | ok w =>
    cases hw : w.asNumber? with
    | none =>
      refine ⟨.error .invalidOperands, fun container _ n hn => after (hr n hn) ?_⟩
      rw [hw]
      rfl
    | some x =>
      refine ⟨v.item x, fun container hc n hn => after (hr n hn) ?_⟩
      rw [hw]
      exact element hc x

/-- The same indices lead to the same from wherever the value is. -/
theorem follow {indices : List Expr} (hi : Expr.AllInert indices) (limit : Nat) (m : Machine)
    (v : Value) : ∃ r, ∀ container : Evaluated, container.Denotes m.store v →
      ∀ n, sizeOf indices ≤ n →
        Selects (Exec.follow (Expr.eval limit n) container indices) m r := by
  induction indices generalizing v with
  | nil => exact ⟨.ok v, fun container hc n _ => ⟨container, rfl, hc⟩⟩
  | cons i indices ih =>
    obtain ⟨r, hr⟩ := elementAt hi.1 limit m v
    have hle (n : Nat) (hn : sizeOf (i :: indices) ≤ n) : sizeOf i ≤ n ∧ sizeOf indices ≤ n := by
      rw [List.cons.sizeOf_spec] at hn
      omega
    cases r with
    | error cause =>
      exact ⟨.error cause, fun container hc n hn => fault (hr container hc n (hle n hn).1)⟩
    | ok w =>
      obtain ⟨r', hr'⟩ := ih hi.2 w
      refine ⟨r', fun container hc n hn => ?_⟩
      obtain ⟨ev, hev, hd⟩ := hr container hc n (hle n hn).1
      exact after hev (hr' ev hd n (hle n hn).2)

theorem valueOf {x : Exec Evaluated} (h : Selects x m r) : (x >>= valueOf) m = ofExcept r m := by
  cases r with
  | ok v =>
    obtain ⟨ev, hx, hev⟩ := h
    exact (bind_of_done hx).trans (valueOf_denotes hev)
  | error cause => exact bind_of_fault h

end Selects

/-- Indices are evaluated one after the other. -/
theorem eval_indexed {e : Expr} {indices : List Expr} (he : e.Inert) (hi : Expr.AllInert indices)
    {limit n : Nat} (hn : sizeOf (e.indexed indices) ≤ n) (m : Machine) :
    (e.indexed indices).eval limit n m =
      (e.eval limit n >>= fun container => follow (Expr.eval limit n) container indices) m := by
  induction indices generalizing e with
  | nil => exact (congrFun (bind_pure (e.eval limit n)) m).symm
  | cons i indices ih =>
    have hsize : sizeOf (Expr.binary e .index i) + sizeOf indices ≤
        sizeOf (e.indexed (i :: indices)) + 1 := Expr.size_le_indexed (.binary e .index i) indices
    rw [Expr.binary.sizeOf_spec, BinaryOp.index.sizeOf_spec] at hsize
    obtain ⟨k, rfl⟩ : ∃ k, n = k + 1 := ⟨n - 1, by omega⟩
    -- the parts have a step less than the whole, which makes no difference to them
    have first : Expr.eval limit (k + 1) (.binary e .index i) m =
        (e.eval limit (k + 1) >>= fun container =>
          elementAt (Expr.eval limit (k + 1)) container i) m := by
      refine bind_congr ((he.steady limit m).same (by omega) (by omega)) fun container m' hd => ?_
      cases (he.steady limit m).unchanged (by omega) hd
      exact bind_congr ((hi.1.steady limit m).evalValue.same (by omega) (by omega)) fun _ _ _ => rfl
    have he' : (Expr.binary e .index i).Inert := ⟨he, hi.1⟩
    refine (ih he' hi.2 hn).trans ?_
    rw [bind_congr first fun _ _ _ => rfl, bind_assoc]
    rfl

end Exec

/-- What an expression without calls and assignments comes to, it comes to with any number of steps
that is large enough. -/
theorem Expr.Inert.eval_done {e : Expr} (he : e.Inert) {limit n₀ : Nat} {m m' : Machine}
    {ev : Evaluated} (h : e.eval limit n₀ m = .done ev m') :
    m' = m ∧ ∀ n, sizeOf e ≤ n → e.eval limit n m = .done ev m := by
  have hsteady := he.steady limit m
  have hmore : e.eval limit (n₀ + sizeOf e) m = .done ev m' := by
    rw [← h]
    exact Expr.eval_steps (Nat.le_add_right _ _) (by rw [h]; nofun)
  cases hsteady.unchanged (Nat.le_add_left _ _) hmore
  exact ⟨rfl, fun n hn => (hsteady.same hn (Nat.le_add_left _ _)).trans hmore⟩

open Exec in
/-- To index a slot and to index the value in it is the same. Wherever a run has come to, an index
of a slot is refused for the same reason as one of its value, or what it selects has the same
value. And if an expression without calls and assignments comes to a slot, then more such indices
behind it lead to the same value, or the same fault, as they do from the value in the slot. -/
theorem Reached.slots_are_indexed_as_values {limit steps : Nat} {program : Block}
    {m₀ m : Machine} {o : Origins} (hm : m₀.Idle)
    (hr : Reached limit steps program m₀ m.store o) :
    (∀ slot v i, m.store.load slot = .ok v →
      (∃ cause, element (.slot slot) i m = fail cause m ∧
        element (.value v) i m = fail cause m) ∨
      ∃ ev w, element (.slot slot) i m = .done ev m ∧ valueOf ev m = .done w m ∧
        element (.value v) i m = .done (.value w) m) ∧
    ∀ (e : Expr) indices, e.Inert → Expr.AllInert indices → ∀ n₀ slot m',
      e.eval limit n₀ m = .done (.slot slot) m' →
        m' = m ∧ ∃ v r, m.store.load slot = .ok v ∧ ∀ n, sizeOf (e.indexed indices) ≤ n →
          evalValue (Expr.eval limit n) (e.indexed indices) m = ofExcept r m ∧
          (do valueOf (← follow (Expr.eval limit n) (.value v) indices)) m = ofExcept r m := by
  constructor
  · intro slot v i hload
    have hdenotes : (Evaluated.slot slot).Denotes m.store v := hload
    have hslot := Selects.element hdenotes i
    have hvalue : element (.value v) i m = ofExcept ((v.item i).map .value) m :=
      element_of_denotes (Evaluated.denotes_value m.store v) i
    rw [hvalue]
    cases hv : v.item i with
    | error cause =>
      rw [hv] at hslot
      exact .inl ⟨cause, hslot, rfl⟩
    | ok w =>
      rw [hv] at hslot
      obtain ⟨ev, hev, hd⟩ := hslot
      exact .inr ⟨ev, w, hev, valueOf_denotes hd, rfl⟩
  · intro e indices he hi n₀ slot m' hd
    obtain ⟨hunchanged, hany⟩ := he.eval_done hd
    cases hunchanged
    obtain ⟨v, hload⟩ := (Expr.eval_loads (hr.filled hm) limit n₀ e).of_done hd slot rfl
    obtain ⟨r, hfollow⟩ := Selects.follow hi limit m v
    refine ⟨rfl, v, r, hload, fun n hn => ?_⟩
    have hsize := Expr.size_le_indexed e indices
    have hpos := e.sizeOf_pos
    have hpos' : 0 < sizeOf indices := by cases indices <;> simp +arith
    have hev := hany n (by omega)
    have hindexed : Selects
        (e.eval limit n >>= fun container => follow (Expr.eval limit n) container indices) m r :=
      .after hev (hfollow (.slot slot) hload n (by omega))
    exact ⟨(hindexed.of_eq (eval_indexed he hi hn m)).valueOf,
      (hfollow (.value v) (Evaluated.denotes_value m.store v) n (by omega)).valueOf⟩

open Exec in
/-- A row of a table, and an item in it. -/
theorem Reached.slots_are_indexed_as_values_in_table :
    ∃ (program : Block) (m : Machine) (o : Origins) (v : Value) (r : Except RuntimeError Value),
      (Machine.new ⟨[], []⟩ .unlimited).Idle ∧
      Reached 8 9 program (.new ⟨[], []⟩ .unlimited) m.store o ∧
      Expr.eval 8 1 (.identifier "t") m = .done (.slot ⟨1, "t", []⟩) m ∧
      m.store.load ⟨1, "t", []⟩ = .ok v ∧
      evalValue (Expr.eval 8 500)
        ((Expr.identifier "t").indexed [.identifier "i", .identifier "i"]) m = ofExcept r m ∧
      (do valueOf (← follow (Expr.eval 8 500) (.value v) [.identifier "i", .identifier "i"])) m =
        ofExcept r m := by
  let program : Block := [
    .declare ⟨1, 1⟩ "t" none (some (.list [.list [.boolean true], .list [.boolean false]])),
    .declare ⟨2, 1⟩ "i" none (some (.number 0))]
  obtain ⟨a, ha, hd⟩ : ∃ a, Visited 8 9 program (.new ⟨[], []⟩ .unlimited) a ∧
      Expr.eval 8 1 (.identifier "t") a.machine = .done (.slot ⟨1, "t", []⟩) a.machine :=
    ⟨_, ((Visited.start.enter .block).enter (.tail rfl)).enter (.tail rfl),
      by with_unfolding_all rfl⟩
  have hr := Reached.moment ha
  obtain ⟨-, v, r, hload, hsame⟩ := (hr.slots_are_indexed_as_values (.new _ _)).2 (.identifier "t")
    [.identifier "i", .identifier "i"] trivial ⟨trivial, trivial, trivial⟩ 1 _ _ hd
  obtain ⟨hindexed, hfollow⟩ := hsame 500 (by decide)
  exact ⟨program, a.machine, a.origins, v, r, .new _ _, hr, hd, hload, hindexed, hfollow⟩

end Offside
