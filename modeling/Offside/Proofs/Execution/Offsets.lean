import Offside.Proofs.Execution.Elements
import Offside.Proofs.Number.Units

/-!
The positions that indices select. An offset is computed with rounded numbers, and still it comes
out as if it were computed with integers, so no position is ever out of range.
-/

namespace Offside

open Number (Units Rounds one one_pos units_nearest fits_mul_one fraction_eq_zero_iff lt_iff_compare
  rational? rational?_eq_intCast_iff)

namespace Value

variable {index : Float} {length : Nat} {outside : RuntimeError} {i : Int}

theorem offset_of_not_integral (h : ∀ i : Int, ¬ Units index (i * one)) :
    offset index length outside = .error .fractionalIndex := by
  have hbeq : (Number.fraction index == 0) = false := by
    rw [← Bool.not_eq_true, fraction_eq_zero_iff]
    exact fun ⟨i, hi⟩ => h i hi
  unfold offset
  exact if_pos (by rw [bne, hbeq]; rfl)

/-- How an index that counts from the start is held against the length. -/
theorem offset_from_start (h : Units index (i * one)) (hlength : length < 2 ^ 53) :
    (if index < 0 || Number.nearest length 1 ≤ index then Except.error outside
      else .ok index.toUInt64.toNat) =
      if 0 ≤ i ∧ i < length then .ok i.toNat else .error outside := by
  have hone : (0 : Int) < one := by exact_mod_cast one_pos
  have hlt : index < 0 ↔ i < 0 := by
    rw [h.lt_iff .zero, mul_neg_iff]
    omega
  have hle : Number.nearest length 1 ≤ index ↔ length ≤ i := by
    rw [(units_nearest hlength).le_iff h, mul_le_mul_iff_of_pos_right hone]
  simp only [hlt, hle, Bool.or_eq_true, decide_eq_true_eq]
  by_cases hi : 0 ≤ i ∧ i < length
  · rw [if_pos hi, if_neg (by omega)]
    obtain ⟨p, rfl⟩ := Int.eq_ofNat_of_zero_le hi.1
    rw [h.toUInt64_eq (by omega), Int.toNat_natCast]
  · rw [if_neg hi, if_pos (by omega)]

/-- The sum for a negative index is exact where it is not negative itself. -/
theorem offset_of_integral (h : Units index (i * one)) (hlength : length < 2 ^ 53) :
    offset index length outside =
      if -length ≤ i ∧ i < length then .ok (if i < 0 then length + i else i).toNat
      else .error outside := by
  have hone : (0 : Int) < one := by exact_mod_cast one_pos
  have hbeq : (Number.fraction index == 0) = true := (fraction_eq_zero_iff index).2 ⟨i, h⟩
  have hlt : index < 0 ↔ i < 0 := by
    rw [h.lt_iff .zero, mul_neg_iff]
    omega
  unfold offset
  rw [if_neg (by rw [bne, hbeq]; decide)]
  dsimp only
  by_cases hi : i < 0
  · rw [if_pos (hlt.2 hi)]
    have hsum : Rounds (index + Number.nearest length 1).toModel.unpack ((length + i) * one) := by
      rw [add_comm (length : Int), add_mul]
      exact h.add (units_nearest hlength)
    by_cases hfront : 0 ≤ length + i
    · obtain ⟨p, hp⟩ := Int.eq_ofNat_of_zero_le hfront
      have hfits : Number.Fits ((length + i) * one : Int).natAbs := by
        rw [hp, ← Nat.cast_mul, Int.natAbs_natCast]
        exact fits_mul_one (by omega)
      have hmoved : Units (index + Number.nearest length 1) ((length + i) * one) :=
        hsum.exact_of_fits hfits
      rw [offset_from_start hmoved hlength, if_pos hi]
      exact if_congr (by omega) rfl rfl
    · have hbelow : index + Number.nearest length 1 < 0 :=
        (lt_iff_compare _ _).2 (hsum.below (mul_neg_of_neg_of_pos (by omega) hone))
      rw [if_pos (by simp [hbelow]), if_neg (by omega)]
  · rw [if_neg (hlt.not.2 hi), offset_from_start h hlength, if_neg hi]
    exact if_congr (by omega) rfl rfl

theorem offset_lt {p : Nat} (hlength : length < 2 ^ 53)
    (h : offset index length outside = .ok p) : p < length := by
  by_cases hintegral : ∃ i : Int, Units index (i * one)
  · obtain ⟨i, hi⟩ := hintegral
    rw [offset_of_integral hi hlength] at h
    split at h
    · cases h
      split <;> omega
    · cases h
  · rw [offset_of_not_integral fun i hi => hintegral ⟨i, hi⟩] at h
    cases h

/-- The position is the offset: it is never out of range. -/
theorem position_val (hlength : length < 2 ^ 53) :
    (position index length outside).map Fin.val = offset index length outside := by
  unfold position
  cases h : offset index length outside with
  | error cause => rfl
  | ok p =>
    dsimp only
    rw [dif_pos (offset_lt hlength h)]
    rfl

/-- How many elements an index can select from. -/
def size : Value → Nat
  | .string s => s.toList.length
  | .array _ items => items.length
  | _ => 0

end Value

namespace Evaluated

/-- What an index takes from a container with the value `v` when nobody looks whether the offset is
in range. There is nothing to take if it is not. -/
def taken? (index : Float) (v : Value) (container : Evaluated) :
    Except RuntimeError (Option Evaluated) :=
  match v with
  | .string s =>
    (Value.offset index s.toList.length .stringIndex).map fun p =>
      s.toList[p]?.map fun c => .value (.string (String.ofList [c]))
  | .array _ items =>
    (Value.offset index items.length .arrayIndex).map fun p =>
      items[p]?.map fun item =>
        match container with
        | .slot place => .slot (place.index p)
        | .value _ => .value item
  | _ => .error .invalidOperands

/-- There always is something to take. -/
theorem taken?_eq {index : Float} {v : Value} (container : Evaluated) (h : v.size < 2 ^ 53) :
    container.taken? index v = (container.item index v).map some := by
  cases v with
  | string s =>
    have hitem : container.item index (.string s) = (Value.character s index).map .value := by
      cases container <;> rfl
    have hsize : s.toList.length < 2 ^ 53 := h
    rw [hitem, taken?, ← Value.position_val hsize, Value.character]
    cases Value.position index s.toList.length .stringIndex with
    | error cause => rfl
    | ok p => simp [Except.map]
  | array t items =>
    have hsize : items.length < 2 ^ 53 := h
    rw [taken?, ← Value.position_val hsize]
    cases container with
    | slot place =>
      rw [item]
      cases Value.position index items.length .arrayIndex with
      | error cause => rfl
      | ok p => simp [Except.map]
    | value w =>
      rw [item, Value.item, Value.element]
      cases Value.position index items.length .arrayIndex with
      | error cause => rfl
      | ok p => simp [Except.map]
  | _ => cases container <;> rfl

end Evaluated

/-- An index selects as if it were computed with integers: it does so exactly if it is an integer
from minus the length up to below the length, and negative ones count from the end. What is not a
finite integer is refused as such, and everything else is out of bounds. So what is taken from a
container without looking is always there, and it is what the machine comes to. -/
theorem Value.offsets_are_exact (index : Float) (length : Nat) (hlength : length < 2 ^ 53)
    (outside : RuntimeError) (houtside : outside ≠ .fractionalIndex) :
    (∀ p, offset index length outside = .ok p ↔ ∃ i : Int, rational? index = some (i : ℚ) ∧
        -length ≤ i ∧ i < length ∧ (p : Int) = if i < 0 then length + i else i) ∧
      (offset index length outside = .error .fractionalIndex ↔
        ∀ i : Int, rational? index ≠ some (i : ℚ)) ∧
      (offset index length outside = .error outside ↔
        ∃ i : Int, rational? index = some (i : ℚ) ∧ ¬ (-length ≤ i ∧ i < length)) ∧
      (∀ container v m m', Exec.valueOf container m = .done v m' → v.size < 2 ^ 53 →
        ∃ r, container.taken? index v = r.map some ∧
          Exec.element container index m = Exec.ofExcept r m') ∧
      RuntimeError.fractionalIndex.message = "non-integer number used as index" ∧
      RuntimeError.stringIndex.message = "string index out of bounds" ∧
      RuntimeError.arrayIndex.message = "array index out of bounds" := by
  have htaken : ∀ container v m m', Exec.valueOf container m = .done v m' → v.size < 2 ^ 53 →
      ∃ r, container.taken? index v = r.map some ∧
        Exec.element container index m = Exec.ofExcept r m' := by
    intro container v m m' hv hsize
    refine ⟨container.item index v, container.taken?_eq hsize, ?_⟩
    rw [Exec.element_eq, Exec.bind_of_done hv]
  simp only [ne_eq, rational?_eq_intCast_iff]
  by_cases hintegral : ∃ i : Int, Units index (i * one)
  · obtain ⟨i, hi⟩ := hintegral
    have hone : (one : Int) ≠ 0 := by exact_mod_cast one_pos.ne'
    have hunique : ∀ j : Int, Units index (j * one) ↔ j = i := by
      intro j
      constructor
      · exact fun hj => mul_right_cancel₀ hone (hj.unique hi)
      · rintro rfl
        exact hi
    simp only [hunique, exists_eq_left]
    rw [offset_of_integral hi hlength]
    by_cases hin : -length ≤ i ∧ i < length
    · rw [if_pos hin]
      refine ⟨fun p => ?_, ?_, ?_, htaken, rfl, rfl, rfl⟩
      · rw [Except.ok.injEq]
        split <;> omega
      · exact iff_of_false nofun fun h => h i rfl
      · exact iff_of_false nofun fun h => h hin
    · rw [if_neg hin]
      refine ⟨fun p => ?_, ?_, iff_of_true rfl hin, htaken, rfl, rfl, rfl⟩
      · exact iff_of_false nofun (by tauto)
      · exact iff_of_false (fun h => houtside (Except.error.inj h)) fun h => h i rfl
  · have hnone : ∀ i : Int, ¬ Units index (i * one) := fun i hi => hintegral ⟨i, hi⟩
    rw [offset_of_not_integral hnone]
    refine ⟨fun p => iff_of_false nofun ?_, iff_of_true rfl hnone, ?_, htaken, rfl, rfl, rfl⟩
    · rintro ⟨i, hi, -⟩
      exact hnone i hi
    · refine iff_of_false (fun h => houtside (Except.error.inj h).symm) ?_
      rintro ⟨i, hi, -⟩
      exact hnone i hi

/-- The third character from the end of a text of three is its first one, and there is no fourth. -/
theorem Value.offsets_from_the_end :
    offset (-3) 3 .stringIndex = .ok 0 ∧ offset (-4) 3 .stringIndex = .error .stringIndex := by
  have hthree : rational? (-3) = some ((-3 : Int) : ℚ) := by
    have hexact : Number.exact (-3) = .finite true 0x18000000000000 (-51) := by decide +kernel
    rw [rational?, hexact]
    norm_num
  have hfour : rational? (-4) = some ((-4 : Int) : ℚ) := by
    have hexact : Number.exact (-4) = .finite true 0x10000000000000 (-50) := by decide +kernel
    rw [rational?, hexact]
    norm_num
  constructor
  · exact ((offsets_are_exact (-3) 3 (by decide) .stringIndex nofun).1 0).2
      ⟨-3, hthree, by decide, by decide, rfl⟩
  · exact (offsets_are_exact (-4) 3 (by decide) .stringIndex nofun).2.2.1.2
      ⟨-4, hfour, by decide⟩

end Offside
