import Offside.Proofs.Scope.Writes
import Offside.Proofs.Typing.Tagging

/-!
Paths into nested arrays. Where the types say that there is an array on the way, there is one; so
a path can only lead past the end of an array.
-/

namespace Offside

namespace Value

/-- A position on the path is not one of the array that the path goes through there. -/
def Overrun (v : Value) (path : List Nat) : Prop :=
  ∃ before i after element items, path = before ++ i :: after ∧
    v.part? before = some (.array element items) ∧ items.length ≤ i

theorem Overrun.cons {element : Ty} {items : List Value} {i : Nat} {item : Value}
    {path : List Nat} (hi : items[i]? = some item) (h : item.Overrun path) :
    (Value.array element items).Overrun (i :: path) := by
  obtain ⟨before, j, after, e, is, rfl, hb, hj⟩ := h
  exact ⟨i :: before, j, after, e, is, rfl, by simp [part?, hi, hb], hj⟩

theorem Overrun.head {element : Ty} {items : List Value} {i : Nat} {path : List Nat}
    (hi : items[i]? = none) : (Value.array element items).Overrun (i :: path) :=
  ⟨[], i, path, element, items, rfl, rfl, List.getElem?_eq_none_iff.mp hi⟩

theorem dig_cons {t u : Ty} {n : Nat} (h : t.dig (n + 1) = some u) :
    ∃ element, t = .array element ∧ element.dig n = some u := by
  cases t with
  | array element => exact ⟨element, rfl, h⟩
  | _ => cases h

/-- What is behind a path has the type that the types tell, unless the path leads past an end. -/
theorem HasTy.part? {v : Value} {ty t : Ty} {path : List Nat} (h : v.HasTy ty)
    (hd : ty.dig path.length = some t) :
    (∃ w, v.part? path = some w ∧ w.HasTy t) ∨ v.part? path = none ∧ v.Overrun path := by
  induction path generalizing v ty with
  | nil =>
    simp only [List.length_nil, Ty.dig, Option.some.injEq] at hd
    exact .inl ⟨v, rfl, hd ▸ h⟩
  | cons i path ih =>
    obtain ⟨element, rfl, hd⟩ := dig_cons hd
    obtain ⟨items, rfl, hitems⟩ := h.array_inv
    cases hi : items[i]? with
    | none => exact .inr ⟨by simp [Value.part?, hi], .head hi⟩
    | some item =>
      obtain ⟨w, hw, hwt⟩ | ⟨hw, ho⟩ := ih (hitems item (List.mem_of_getElem? hi)) hd
      · exact .inl ⟨w, by simp [Value.part?, hi, hw], hwt⟩
      · exact .inr ⟨by simp [Value.part?, hi, hw], .cons hi ho⟩

/-- A path that leads to something leads through arrays only. -/
theorem HasTy.exists_dig {v w : Value} {ty : Ty} {path : List Nat} (h : v.HasTy ty)
    (hp : v.part? path = some w) : ∃ t, ty.dig path.length = some t := by
  induction path generalizing v ty with
  | nil => exact ⟨ty, by simp [Ty.dig]⟩
  | cons i path ih =>
    cases h with
    | @array element items _ hitems =>
      obtain ⟨item, hi, hp⟩ := Option.bind_eq_some_iff.mp hp
      exact ih (hitems item (List.mem_of_getElem? hi)) hp
    | _ => cases hp

/-- A path may be followed piece by piece. -/
theorem part?_append (v : Value) (path rest : List Nat) :
    v.part? (path ++ rest) = (v.part? path).bind fun w => w.part? rest := by
  induction path generalizing v with
  | nil => rfl
  | cons j path ih =>
    cases v with
    | array element items =>
      cases hj : items[j]? with
      | none => simp [part?, hj]
      | some item => simp only [List.cons_append, part?, hj, Option.bind_some, ih]
    | _ => rfl

theorem part?_concat {v : Value} {path : List Nat} {element : Ty} {items : List Value}
    (h : v.part? path = some (.array element items)) (i : Nat) :
    v.part? (path ++ [i]) = items[i]? := by
  rw [part?_append, h]
  simp [part?]

end Value

namespace Store

/-- A new value at the end of a path leaves all tags true, unless the path leads past an end. -/
theorem replace_hasTy (name : String) {new old : Value} {ty t : Ty} {path : List Nat}
    (h : old.HasTy ty) (hd : ty.dig path.length = some t)
    (hnew : ∃ w, new.coerce t = some w ∧ w.HasTy t) :
    (∃ v, replace name new ty old path = .ok v ∧ v.HasTy ty ∧ (v.part? path).isSome) ∨
      replace name new ty old path = .error .outOfBounds ∧ old.Overrun path := by
  induction path generalizing old ty with
  | nil =>
    simp only [List.length_nil, Ty.dig, Option.some.injEq] at hd
    obtain ⟨w, hw, hwt⟩ := hnew
    exact .inl ⟨w, by simp [replace, fit, hd, hw], hd ▸ hwt, rfl⟩
  | cons i path ih =>
    obtain ⟨element, rfl, hd⟩ := Value.dig_cons hd
    obtain ⟨items, rfl, hitems⟩ := h.array_inv
    cases hi : items[i]? with
    | none => exact .inr ⟨by simp [replace, hi], .head hi⟩
    | some item =>
      obtain ⟨v, hv, hvt, hp⟩ | ⟨hv, ho⟩ := ih (hitems item (List.mem_of_getElem? hi)) hd
      · have hlt : i < items.length := (List.getElem?_eq_some_iff.mp hi).1
        refine .inl ⟨.array element (items.set i v), by simp [replace, hi, hv], ?_, ?_⟩
        · refine .array h.isPlain fun u hu => ?_
          obtain hu | rfl := List.mem_or_eq_of_mem_set hu
          · exact hitems u hu
          · exact hvt
        · simpa [Value.part?, List.getElem?_set_self hlt] using hp
      · exact .inr ⟨by simp [replace, hi, hv], .cons hi ho⟩

/-- Only where there is nothing, writing goes out of bounds. -/
theorem part?_of_replace {name : String} {new old : Value} {ty : Ty} {path : List Nat}
    (h : replace name new ty old path = .error .outOfBounds) : old.part? path = none := by
  induction path generalizing old ty with
  | nil =>
    unfold replace fit at h
    split at h <;> cases h
  | cons i path ih =>
    cases old with
    | array element items =>
      cases hi : items[i]? with
      | none => simp [Value.part?, hi]
      | some item =>
        simp only [replace, hi] at h
        simp only [Value.part?, hi, Option.bind_some]
        split at h
        · cases h
        · case h_2 e he =>
          cases h
          exact ih he
    | _ => rfl

end Store

end Offside
