import Offside.Proofs.Execution.Outcomes

/-!
What an index selects, as a function of the value that is indexed. The item of an array that is in a
slot is in a slot itself; everything else that an index selects is only a value.
-/

namespace Offside

/-- What an index selects from a value. -/
def Value.item : Value → Float → Except RuntimeError Value
  | .string s, i => character s i
  | .array _ items, i => element items i
  | _, _ => .error .invalidOperands

/-- What an index selects from a container with the value `v`. -/
def Evaluated.item (i : Float) (v : Value) : Evaluated → Except RuntimeError Evaluated
  | .slot place =>
    match v with
    | .array _ items =>
      (Value.position i items.length .arrayIndex).map fun p : Fin items.length =>
        .slot (place.index p)
    | v => (v.item i).map .value
  | .value _ => (v.item i).map .value

/-- A slot that an index leads to is that of an item. -/
theorem Evaluated.item_slot {container : Evaluated} {i : Float} {v : Value} {slot : Slot}
    (h : container.item i v = .ok (.slot slot)) : ∃ (place : Slot) (p : Nat) (element : Ty)
      (items : List Value) (item : Value), container = .slot place ∧ slot = place.index p ∧
        v = .array element items ∧ items[p]? = some item := by
  have hvalue : (v.item i).map Evaluated.value ≠ .ok (.slot slot) := by
    cases v.item i <;> nofun
  cases container with
  | value w => exact absurd h hvalue
  | slot place =>
    cases v with
    | array element items =>
      unfold item at h
      dsimp only at h
      cases hp : Value.position i items.length .arrayIndex with
      | error cause =>
        rw [hp] at h
        cases h
      | ok p =>
        rw [hp] at h
        cases h
        exact ⟨place, p, element, items, _, rfl, rfl, rfl, List.getElem?_eq_getElem p.isLt⟩
    | _ => exact absurd h hvalue

namespace Exec

theorem ofExcept_map {α β : Type} (f : α → β) (r : Except RuntimeError α) :
    ofExcept (r.map f) = do return f (← ofExcept r) := by
  cases r <;> rfl

/-- Slot or not, the value of the container decides on what is selected. -/
theorem element_eq (container : Evaluated) (i : Float) :
    element container i = valueOf container >>= fun v => ofExcept (container.item i v) := by
  cases container with
  | slot place =>
    refine congrArg (Bind.bind (load place)) (funext fun v => ?_)
    cases v with
    | string s => exact (ofExcept_map _ _).symm
    | array element items =>
      exact (ofExcept_map (fun p : Fin items.length => Evaluated.slot (place.index p)) _).symm
    | _ => rfl
  | value v =>
    cases v with
    | string s => exact (ofExcept_map _ _).symm
    | array element items => exact (ofExcept_map _ _).symm
    | _ => rfl

end Exec

end Offside
