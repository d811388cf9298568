/-!
Computations that may fail: what they tell of their parts when they succeed, and what becomes of them
when both their results and their errors are renamed.
-/

namespace Offside

variable {ε ε' α α' β β' : Type}

theorem bind_ok {x : Except ε α} {f : α → Except ε β} {b : β} (h : x >>= f = .ok b) :
    ∃ a, x = .ok a ∧ f a = .ok b := by
  cases x with
  | ok a => exact ⟨a, rfl, h⟩
  | error e => cases h

theorem mapError_ok {x : Except ε α} {f : ε → ε'} {a : α} (h : x.mapError f = .ok a) :
    x = .ok a := by
  cases x with
  | ok b =>
    cases h
    rfl
  | error e => cases h

theorem pure_ok {a b : α} (h : (Pure.pure a : Except ε α) = .ok b) : a = b := by
  cases h
  rfl

/-- Rename the error or the result. -/
def mapBoth (e : ε → ε') (f : α → β) : Except ε α → Except ε' β
  | .ok a => .ok (f a)
  | .error x => .error (e x)

theorem mapBoth_bind {e : ε → ε'} {f : α → α'} {g : β → β'} (x : Except ε α)
    {y : α → Except ε β} {y' : α' → Except ε' β'} (h : ∀ a, y' (f a) = mapBoth e g (y a)) :
    mapBoth e f x >>= y' = mapBoth e g (x >>= y) := by
  cases x with
  | ok a => exact h a
  | error _ => rfl

/-- The first part may be the same. -/
theorem bind_mapBoth {g : β → β'} (x : Except ε α) {y : α → Except ε β} {y' : α → Except ε β'}
    (h : ∀ a, y' a = mapBoth id g (y a)) : x >>= y' = mapBoth id g (x >>= y) := by
  cases x with
  | ok a => exact h a
  | error _ => rfl

end Offside
