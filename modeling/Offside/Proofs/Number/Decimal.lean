import Offside.Number.Reading
import Offside.Number.Text
import Offside.Proofs.Number.Nearest

/-!
Decimal numbers. The number read for `n * 10 ^ e` depends on this value alone, and when the value is
that of a number it is that number. So the shortest digits of a number are read back as the number.
-/

namespace Offside.Number

/-! The count of digits. -/

theorem toDigits_mul_pow {n : Nat} (hn : 0 < n) (k : Nat) :
    Nat.toDigits 10 (n * 10 ^ k) = Nat.toDigits 10 n ++ List.replicate k '0' := by
  induction k with
  | zero => simp
  | succ k ih =>
    have hstep := Nat.toDigits_append_toDigits (b := 10) (d := 0) (by decide)
      (Nat.mul_pos hn (Nat.pow_pos (by decide) : 0 < 10 ^ k)) (by decide)
    rw [Nat.add_zero, Nat.toDigits_zero, ih, List.append_assoc] at hstep
    rw [List.replicate_succ', Nat.pow_succ, ← Nat.mul_assoc, Nat.mul_comm _ 10]
    exact hstep.symm

theorem length_toDigits_bounds {n : Nat} (hn : n ≠ 0) :
    10 ^ ((Nat.toDigits 10 n).length - 1) ≤ n ∧ n < 10 ^ (Nat.toDigits 10 n).length := by
  have hpos : 0 < (Nat.toDigits 10 n).length := Nat.length_toDigits_pos
  constructor
  · by_contra hlt
    by_cases hone : (Nat.toDigits 10 n).length = 1
    · rw [hone] at hlt
      omega
    · have hle := (Nat.length_toDigits_le_iff (b := 10) (by decide) (by omega)).2
        (Nat.lt_of_not_le hlt)
      omega
  · exact (Nat.length_toDigits_le_iff (by decide) hpos).1 (Nat.le_refl _)

/-! The number nearest to a decimal number. -/

theorem scale_ten_pos (n : Nat) (e : Int) : 0 < (scale 10 n 1 e).2 :=
  scale_pos (by decide) n Nat.one_pos e

theorem value_decimal (n : Nat) (e : Int) : value (scale 10 n 1 e) = n * (10 : ℚ) ^ e := by
  have h10 : 0 < 10 := by decide
  simpa using value_scale h10 n 1 e

theorem nearest_congr {r t : Nat × Nat} (hr : 0 < r.2) (ht : 0 < t.2) (h : value r = value t) :
    nearest r.1 r.2 = nearest t.1 t.2 := by
  unfold nearest
  rw [nearestBits_eq hr, nearestBits_eq ht]
  exact congrArg (fun q => Float.ofBits (UInt64.ofNat (pattern q))) h

/-- Zeros at the end can be moved into the exponent. -/
theorem ofDecimal_mul_pow (n k : Nat) (e : Int) :
    ofDecimal (n * 10 ^ k) e = ofDecimal n (e + k) := by
  rcases Nat.eq_zero_or_pos n with rfl | hn
  · simp [ofDecimal]
  · have hpow : 0 < n * 10 ^ k := Nat.mul_pos hn (Nat.pow_pos (by decide))
    have hplaces : ((Nat.toDigits 10 (n * 10 ^ k)).length : Int) + e =
        (Nat.toDigits 10 n).length + (e + k) := by
      rw [toDigits_mul_pow hn, List.length_append, List.length_replicate]
      omega
    have hvalue : value (scale 10 (n * 10 ^ k) 1 e) = value (scale 10 n 1 (e + k)) := by
      rw [value_decimal, value_decimal, add_comm e, zpow_add₀ (by norm_num)]
      push_cast
      rw [mul_assoc, zpow_natCast]
    have hnear := nearest_congr (scale_ten_pos _ _) (scale_ten_pos _ _) hvalue
    unfold ofDecimal
    rw [if_neg (Nat.ne_of_gt hpow), if_neg (Nat.ne_of_gt hn), hplaces]
    dsimp only
    rw [hnear]

theorem exact_ofDecimal (n : Nat) (e : Int) :
    ofDecimal n e = infinity ∨ ∃ s t, exact (ofDecimal n e) = .finite false s t := by
  have hzero := exact_nearest 0 Nat.one_pos
  have hscale := exact_nearest (scale 10 n 1 e).1 (scale_ten_pos n e)
  unfold ofDecimal
  split
  · exact hzero
  · dsimp only
    split
    · exact .inl rfl
    · split
      · exact hzero
      · exact hscale

theorem exact_bounds {x : Float} {s : Nat} {e : Int} (h : exact x = .finite false s e) :
    s * (2 : ℚ) ^ e < 2 ^ (1024 : Int) ∧ (s ≠ 0 → (2 : ℚ) ^ (-1074 : Int) ≤ s * (2 : ℚ) ^ e) := by
  obtain ⟨field, fraction, -, hfield, hfraction, hcase⟩ := exact_finite h
  have hs : s < 2 ^ 53 := by omega
  have he : -1074 ≤ e ∧ e ≤ 971 := by omega
  have hpos : (0 : ℚ) < 2 ^ e := zpow_pos two_pos e
  constructor
  · calc s * (2 : ℚ) ^ e
        < 2 ^ (53 : Int) * 2 ^ e := mul_lt_mul_of_pos_right (by exact_mod_cast hs) hpos
      _ = 2 ^ (53 + e) := (zpow_add₀ two_ne_zero _ _).symm
      _ ≤ 2 ^ (1024 : Int) := zpow_le_zpow_right₀ one_le_two (by omega)
  · intro hne
    calc (2 : ℚ) ^ (-1074 : Int)
        ≤ 2 ^ e := zpow_le_zpow_right₀ one_le_two he.1
      _ ≤ s * 2 ^ e := le_mul_of_one_le_left hpos.le (by exact_mod_cast Nat.pos_of_ne_zero hne)

theorem decimal_bounds {n : Nat} (hn : n ≠ 0) (e : Int) :
    (10 : ℚ) ^ ((Nat.toDigits 10 n).length + e - 1) ≤ n * (10 : ℚ) ^ e ∧
      n * (10 : ℚ) ^ e < 10 ^ ((Nat.toDigits 10 n).length + e) := by
  obtain ⟨hle, hlt⟩ := length_toDigits_bounds hn
  have hpos : (0 : ℚ) < 10 ^ e := zpow_pos (by norm_num) e
  have hlength : 0 < (Nat.toDigits 10 n).length := Nat.length_toDigits_pos
  constructor
  · have hexp : ((Nat.toDigits 10 n).length + e - 1 : Int) =
        ((Nat.toDigits 10 n).length - 1 : Nat) + e := by omega
    rw [hexp, zpow_add₀ (by norm_num), zpow_natCast]
    exact mul_le_mul_of_nonneg_right (by exact_mod_cast hle) hpos.le
  · rw [zpow_add₀ (by norm_num), zpow_natCast]
    exact mul_lt_mul_of_pos_right (by exact_mod_cast hlt) hpos

theorem two_zpow_le_ten_zpow : (2 : ℚ) ^ (1024 : Int) ≤ 10 ^ (310 : Int) := by
  have hnat : 2 ^ 1024 ≤ 10 ^ 310 := by decide +kernel
  exact_mod_cast hnat

theorem ten_zpow_le_two_zpow : (10 : ℚ) ^ (-331 : Int) ≤ 2 ^ (-1074 : Int) := by
  have hnat : 2 ^ 1074 ≤ 10 ^ 331 := by decide +kernel
  rw [zpow_neg, zpow_neg]
  exact inv_anti₀ (zpow_pos two_pos _) (by exact_mod_cast hnat)

/-- A decimal number with the value of a number is read as this number. -/
theorem ofDecimal_eq {x : Float} {s : Nat} {t : Int} (h : exact x = .finite false s t) {n : Nat}
    {e : Int} (hv : n * (10 : ℚ) ^ e = s * (2 : ℚ) ^ t) : ofDecimal n e = x := by
  by_cases hn : n = 0
  · subst hn
    refine (if_pos rfl).trans (nearest_exact h Nat.one_pos ?_)
    rw [← hv]
    simp [value]
  · obtain ⟨hle, hlt⟩ := decimal_bounds hn e
    obtain ⟨hhigh, hlow⟩ := exact_bounds h
    have hs : s ≠ 0 := by
      rintro rfl
      have hpos := mul_pos (a := (n : ℚ)) (by exact_mod_cast Nat.pos_of_ne_zero hn)
        (zpow_pos (by norm_num : (0 : ℚ) < 10) e)
      rw [hv, Nat.cast_zero, zero_mul] at hpos
      exact lt_irrefl _ hpos
    have hsmall : ¬ 310 < ((Nat.toDigits 10 n).length : Int) + e := by
      intro hbig
      have hpow : (10 : ℚ) ^ (310 : Int) ≤ 10 ^ ((Nat.toDigits 10 n).length + e - 1 : Int) :=
        zpow_le_zpow_right₀ (by norm_num) (by omega)
      rw [hv] at hle
      exact absurd (two_zpow_le_ten_zpow.trans (hpow.trans hle)) hhigh.not_ge
    have hlarge : ¬ ((Nat.toDigits 10 n).length : Int) + e < -330 := by
      intro hbig
      have hpow : (10 : ℚ) ^ ((Nat.toDigits 10 n).length + e : Int) ≤ 10 ^ (-331 : Int) :=
        zpow_le_zpow_right₀ (by norm_num) (by omega)
      rw [hv] at hlt
      exact absurd (hlt.trans_le (hpow.trans (ten_zpow_le_two_zpow.trans (hlow hs)))) (lt_irrefl _)
    unfold ofDecimal
    rw [if_neg hn]
    dsimp only
    rw [if_neg hsmall, if_neg hlarge]
    exact nearest_exact h (scale_ten_pos _ _) ((value_decimal n e).trans hv)

end Offside.Number
