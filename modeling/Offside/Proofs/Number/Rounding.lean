import Offside.Proofs.Number.Decimal

/-!
Ratios rounded to a count of decimal digits. The power of ten of the result can be one more than that
of the ratio; the digits are the same whichever of the two they are counted from.
-/

namespace Offside.Number

/-! Rounding to an integer. -/

theorem halfEven_bounds {q : ℚ} (hq : 0 ≤ q) : q - 1 / 2 ≤ halfEven q ∧ halfEven q ≤ q + 1 / 2 := by
  have hle : (⌊q⌋₊ : ℚ) ≤ q := Nat.floor_le hq
  have hlt : q < ⌊q⌋₊ + 1 := Nat.lt_floor_add_one q
  unfold halfEven
  split_ifs <;> push_cast <;> constructor <;> linarith

theorem halfEven_eq {q : ℚ} {n : Nat} (hlow : n - 1 / 2 < q) (hhigh : q < n + 1 / 2)
    (hq : 0 ≤ q) : halfEven q = n := by
  obtain ⟨hle, hge⟩ := halfEven_bounds hq
  have hlt : (halfEven q : ℚ) < (n + 1 : Nat) := by push_cast; linarith
  have hgt : (n : ℚ) < (halfEven q + 1 : Nat) := by push_cast; linarith
  have hlt' := Nat.cast_lt.1 hlt
  have hgt' := Nat.cast_lt.1 hgt
  omega

theorem le_halfEven {q : ℚ} {n : Nat} (h : n ≤ q) : n ≤ halfEven q := by
  have hq : 0 ≤ q := (Nat.cast_nonneg n).trans h
  have hlt : (n : ℚ) < (halfEven q + 1 : Nat) := by
    have := (halfEven_bounds hq).1
    push_cast
    linarith
  exact Nat.lt_succ_iff.1 (Nat.cast_lt.1 hlt)

theorem halfEven_le {q : ℚ} {n : Nat} (hq : 0 ≤ q) (h : q < n) : halfEven q ≤ n := by
  have hlt : (halfEven q : ℚ) < (n + 1 : Nat) := by
    have := (halfEven_bounds hq).2
    push_cast
    linarith
  exact Nat.lt_succ_iff.1 (Nat.cast_lt.1 hlt)

/-! The power of ten of a ratio. -/

theorem decimalExponent_eq {num den : Nat} (hn : 0 < num) (hd : 0 < den) :
    decimalExponent num den = Int.log 10 (value (num, den)) := by
  have hden : (0 : ℚ) < den := by exact_mod_cast hd
  unfold decimalExponent
  split
  · case isTrue hle =>
    obtain ⟨hlow, hhigh⟩ := length_toDigits_bounds (Nat.ne_of_gt (Nat.div_pos hle hd))
    have hlength : 0 < (Nat.toDigits 10 (num / den)).length := Nat.length_toDigits_pos
    generalize (Nat.toDigits 10 (num / den)).length = length at hlow hhigh hlength
    obtain ⟨k, rfl⟩ := Nat.exists_eq_add_one.2 hlength
    refine (log_eq (by decide) ?_ ?_).symm
    · rw [value, le_div_iff₀ hden]
      have := (Nat.le_div_iff_mul_le hd).1 hlow
      push_cast
      rw [add_sub_cancel_right, zpow_natCast]
      exact_mod_cast this
    · rw [value, div_lt_iff₀ hden]
      have := (Nat.div_lt_iff_lt_mul hd).1 hhigh
      push_cast
      rw [sub_add_cancel]
      exact_mod_cast this
  · case isFalse hlt =>
    have hquot : (den + num - 1) / num - 1 = (den - 1) / num := by
      rw [show den + num - 1 = den - 1 + num by omega, Nat.add_div_right _ hn]
      rfl
    have hpos : (den - 1) / num ≠ 0 := Nat.ne_of_gt (Nat.div_pos (by omega) hn)
    obtain ⟨hlow, hhigh⟩ := length_toDigits_bounds hpos
    have hlength : 0 < (Nat.toDigits 10 ((den - 1) / num)).length := Nat.length_toDigits_pos
    rw [hquot]
    generalize (Nat.toDigits 10 ((den - 1) / num)).length = length at hlow hhigh hlength
    obtain ⟨k, rfl⟩ := Nat.exists_eq_add_one.2 hlength
    have hlow' : 10 ^ k * num < den := by
      have := (Nat.le_div_iff_mul_le hn).1 hlow
      rw [Nat.add_sub_cancel] at this
      omega
    have hhigh' : den ≤ 10 ^ (k + 1) * num := by
      have := (Nat.div_lt_iff_lt_mul hn).1 hhigh
      omega
    refine (log_eq (by decide) ?_ ?_).symm
    · rw [value, le_div_iff₀ hden, zpow_neg, inv_mul_le_iff₀ (zpow_pos (by norm_num) _),
        zpow_natCast]
      exact_mod_cast hhigh'
    · have hexp : (-((k + 1 : Nat) : Int) + 1) = -(k : Int) := by push_cast; ring
      rw [hexp, value, div_lt_iff₀ hden, zpow_neg, ← div_eq_inv_mul,
        lt_div_iff₀ (zpow_pos (by norm_num) _), zpow_natCast, mul_comm]
      exact_mod_cast hlow'

/-! Significant digits. -/

/-- A value rounded to `count` significant decimal digits, a half to the even digit. -/
def rounded (count : Nat) (v : ℚ) : ℚ :=
  halfEven (v * (10 : ℚ) ^ (count - 1 - Int.log 10 v)) * (10 : ℚ) ^ (Int.log 10 v - (count - 1))

/-- The digits of a value down to the `k`th place behind the one of this power of ten. -/
def digitsAt (k : Nat) (power : Int) (v : ℚ) : Nat :=
  halfEven (v * (10 : ℚ) ^ (k - power))

variable {v : ℚ} (k : Nat)

theorem rounded_eq_digitsAt (v : ℚ) : rounded (k + 1) v =
    digitsAt k (Int.log 10 v) v * (10 : ℚ) ^ (Int.log 10 v - k) := by
  simp [rounded, digitsAt]

theorem log_mul_ten_zpow {n : Nat} (hlow : 10 ^ k ≤ n) (hhigh : n < 10 ^ (k + 1)) (power : Int) :
    Int.log 10 (n * (10 : ℚ) ^ (power - k)) = power := by
  have hpos : (0 : ℚ) < 10 ^ (power - k) := zpow_pos (by norm_num) _
  refine log_eq (by decide) ?_ ?_
  · calc ((10 : Nat) : ℚ) ^ power = 10 ^ k * (10 : ℚ) ^ (power - k) := by
          rw [← zpow_natCast, ← zpow_add₀ (by norm_num)]
          push_cast
          congr 1
          ring
      _ ≤ n * (10 : ℚ) ^ (power - k) := mul_le_mul_of_nonneg_right (by exact_mod_cast hlow) hpos.le
  · calc n * (10 : ℚ) ^ (power - k)
        < 10 ^ (k + 1) * (10 : ℚ) ^ (power - k) :=
          mul_lt_mul_of_pos_right (by exact_mod_cast hhigh) hpos
      _ = ((10 : Nat) : ℚ) ^ (power + 1) := by
          rw [← zpow_natCast, ← zpow_add₀ (by norm_num)]
          push_cast
          congr 1
          ring

/-- What is in front of the last place that is kept, and behind it. -/
theorem scaled_bounds (hv : 0 < v) :
    (10 ^ k : Nat) ≤ v * (10 : ℚ) ^ (k - Int.log 10 v) ∧
      v * (10 : ℚ) ^ (k - Int.log 10 v) < (10 ^ (k + 1) : Nat) := by
  have hpos : (0 : ℚ) < 10 ^ ((k : Int) - Int.log 10 v) := zpow_pos (by norm_num) _
  have hlow := Int.zpow_log_le_self (b := 10) (by decide) hv
  have hhigh := Int.lt_zpow_succ_log_self (b := 10) (by decide) v
  push_cast at hlow hhigh
  constructor
  · calc ((10 ^ k : Nat) : ℚ) = 10 ^ Int.log 10 v * (10 : ℚ) ^ (k - Int.log 10 v) := by
          rw [← zpow_add₀ (by norm_num)]
          push_cast
          rw [← zpow_natCast]
          congr 1
          ring
      _ ≤ v * (10 : ℚ) ^ (k - Int.log 10 v) := mul_le_mul_of_nonneg_right hlow hpos.le
  · calc v * (10 : ℚ) ^ (k - Int.log 10 v)
        < 10 ^ (Int.log 10 v + 1) * (10 : ℚ) ^ (k - Int.log 10 v) :=
          mul_lt_mul_of_pos_right hhigh hpos
      _ = ((10 ^ (k + 1) : Nat) : ℚ) := by
          rw [← zpow_add₀ (by norm_num)]
          push_cast
          rw [← zpow_natCast]
          congr 1
          push_cast
          ring

/-- Rounding keeps the power of ten, or the value is rounded up to the next one. Then one digit less
is the next power as well. -/
theorem rounded_cases (hv : 0 < v) :
    (10 ^ k ≤ digitsAt k (Int.log 10 v) v ∧ digitsAt k (Int.log 10 v) v < 10 ^ (k + 1) ∧
        Int.log 10 (rounded (k + 1) v) = Int.log 10 v) ∨
      (digitsAt k (Int.log 10 v) v = 10 ^ (k + 1) ∧ digitsAt k (Int.log 10 v + 1) v = 10 ^ k ∧
        Int.log 10 (rounded (k + 1) v) = Int.log 10 v + 1) := by
  obtain ⟨hlow, hhigh⟩ := scaled_bounds k hv
  have hpow : (0 : ℚ) ≤ v * (10 : ℚ) ^ (k - Int.log 10 v) := (Nat.cast_nonneg _).trans hlow
  have hle : digitsAt k (Int.log 10 v) v ≤ 10 ^ (k + 1) := halfEven_le hpow hhigh
  rcases Nat.lt_or_eq_of_le hle with hlt | hcarry
  · refine .inl ⟨le_halfEven hlow, hlt, ?_⟩
    rw [rounded_eq_digitsAt]
    exact log_mul_ten_zpow k (le_halfEven hlow) hlt _
  · refine .inr ⟨hcarry, ?_, ?_⟩
    · have htenth : v * (10 : ℚ) ^ (k - (Int.log 10 v + 1)) =
          v * (10 : ℚ) ^ (k - Int.log 10 v) / 10 := by
        rw [← sub_sub, zpow_sub_one₀ (by norm_num), ← mul_assoc, div_eq_mul_inv]
      have hup := (halfEven_bounds hpow).2
      rw [show halfEven (v * (10 : ℚ) ^ (k - Int.log 10 v)) = 10 ^ (k + 1) from hcarry] at hup
      rw [Nat.pow_succ] at hhigh hup
      push_cast at hhigh hup
      unfold digitsAt
      rw [htenth]
      refine halfEven_eq ?_ ?_ (div_nonneg hpow (by norm_num))
      · push_cast
        linarith
      · push_cast
        linarith
    · have hvalue : rounded (k + 1) v = (10 ^ k : Nat) * (10 : ℚ) ^ (Int.log 10 v + 1 - k) := by
        rw [rounded_eq_digitsAt, hcarry, add_sub_right_comm, zpow_add_one₀ (by norm_num)]
        push_cast
        ring
      rw [hvalue]
      have hlt : 10 ^ k < 10 ^ (k + 1) := Nat.pow_lt_pow_right (by decide) (Nat.lt_succ_self k)
      exact log_mul_ten_zpow k (Nat.le_refl _) hlt _

/-- The digits of a rounded value can be counted from its own power of ten. -/
theorem rounded_digits (hv : 0 < v) :
    rounded (k + 1) v = digitsAt k (Int.log 10 (rounded (k + 1) v)) v *
        (10 : ℚ) ^ (Int.log 10 (rounded (k + 1) v) - k) ∧
      10 ^ k ≤ digitsAt k (Int.log 10 (rounded (k + 1) v)) v ∧
      digitsAt k (Int.log 10 (rounded (k + 1) v)) v < 10 ^ (k + 1) := by
  rcases rounded_cases k hv with ⟨hlow, hhigh, hlog⟩ | ⟨hcarry, hdigits, hlog⟩
  · rw [hlog]
    exact ⟨rounded_eq_digitsAt k v, hlow, hhigh⟩
  · have hlt : 10 ^ k < 10 ^ (k + 1) := Nat.pow_lt_pow_right (by decide) (Nat.lt_succ_self k)
    rw [hlog, hdigits]
    refine ⟨?_, Nat.le_refl _, hlt⟩
    rw [rounded_eq_digitsAt, hcarry, add_sub_right_comm, zpow_add_one₀ (by norm_num)]
    push_cast
    ring

/-! The two ways of writing a ratio have the same digits. -/

variable {num den : Nat}

theorem roundHalfEven_scale (hd : 0 < den) (power : Int) :
    roundHalfEven (scale 10 num den (k - power)).1 (scale 10 num den (k - power)).2 =
      digitsAt k power (value (num, den)) := by
  rw [roundHalfEven_eq (scale_pos (by decide) num hd _), value_scale (by decide)]
  rfl

theorem scientific_eq (hn : 0 < num) (hd : 0 < den) :
    scientific k num den =
      (pointed k (digitsAt k (Int.log 10 (rounded (k + 1) (value (num, den)))) (value (num, den))),
        Int.log 10 (rounded (k + 1) (value (num, den)))) := by
  have hv : 0 < value (num, den) := value_pos hn hd
  have hround := @roundHalfEven_scale k num den hd (Int.log 10 (value (num, den)))
  unfold scientific
  rw [if_neg (Nat.ne_of_gt hn), decimalExponent_eq hn hd]
  dsimp only
  rw [hround, Nat.pow_eq]
  rcases rounded_cases k hv with ⟨-, hhigh, hlog⟩ | ⟨hcarry, hdigits, hlog⟩
  · rw [if_pos hhigh, hlog]
  · rw [hlog, hdigits, hcarry, if_neg (Nat.lt_irrefl _), Nat.pow_succ,
      Nat.mul_div_cancel _ (by decide)]

theorem fixed_eq (hd : 0 < den) {places : Nat} {power : Int} (h : (places : Int) = k - power) :
    fixed places num den = pointed places (digitsAt k power (value (num, den))) := by
  have hround := @roundHalfEven_eq (num * 10 ^ places, den) hd
  have hvalue : value (num * 10 ^ places, den) = value (num, den) * (10 : ℚ) ^ (k - power) := by
    rw [← h, zpow_natCast, value, value]
    push_cast
    ring
  unfold fixed digitsAt
  rw [Nat.pow_eq, ← hvalue, ← hround]

theorem rounded_zero : rounded (k + 1) 0 = 0 := by
  have hzero : halfEven 0 = 0 := halfEven_natCast 0
  rw [rounded, zero_mul, hzero, Nat.cast_zero, zero_mul]

theorem exists_digits (num : Nat) (hd : 0 < den) : ∃ n : Nat, n < 10 ^ (k + 1) ∧
    rounded (k + 1) (value (num, den)) =
        n * (10 : ℚ) ^ (Int.log 10 (rounded (k + 1) (value (num, den))) - k) ∧
      scientific k num den =
        (pointed k n, Int.log 10 (rounded (k + 1) (value (num, den)))) ∧
      ∀ places : Nat, (places : Int) = k - Int.log 10 (rounded (k + 1) (value (num, den))) →
        fixed places num den = pointed places n := by
  rcases Nat.eq_zero_or_pos num with rfl | hn
  · have hvalue : value (0, den) = 0 := by simp [value]
    rw [hvalue, rounded_zero, Int.log_zero_right]
    refine ⟨0, Nat.pow_pos (by decide), by simp, if_pos rfl, fun places _ => ?_⟩
    rw [fixed, Nat.zero_mul, show roundHalfEven 0 den = 0 by simp [roundHalfEven, hd]]
  · have hv : 0 < value (num, den) := value_pos hn hd
    obtain ⟨hrounded, -, hlt⟩ := rounded_digits k hv
    exact ⟨_, hlt, hrounded, scientific_eq k hn hd, fun places h => fixed_eq k hd h⟩

end Offside.Number
