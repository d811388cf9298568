import Mathlib
import Offside.Number.Exact

/-!
The number nearest to a ratio depends on the value of the ratio alone, and the number nearest to the
exact value of a number is that number again.
-/

namespace Offside.Number

/-- The value of a ratio. -/
def value (r : Nat × Nat) : ℚ :=
  r.1 / r.2

theorem value_scale {base : Nat} (hb : 0 < base) (num den : Nat) (e : Int) :
    value (scale base num den e) = num / den * (base : ℚ) ^ e := by
  have hbase : (base : ℚ) ≠ 0 := by positivity
  cases e with
  | ofNat k =>
    simp only [scale, value, Int.ofNat_eq_natCast, zpow_natCast, Nat.pow_eq]
    push_cast
    ring
  | negSucc k =>
    simp only [scale, value, zpow_negSucc, Nat.pow_eq]
    push_cast
    field_simp

theorem scale_pos {base : Nat} (hb : 0 < base) (num : Nat) {den : Nat} (hd : 0 < den) (e : Int) :
    0 < (scale base num den e).2 := by
  cases e with
  | ofNat k => exact hd
  | negSucc k => exact Nat.mul_pos hd (Nat.pow_pos hb)

/-! Rounding to an integer. -/

/-- The natural number nearest to a value, the even one of two that are equally near. -/
def halfEven (q : ℚ) : Nat :=
  if q - ⌊q⌋₊ < 1 / 2 then ⌊q⌋₊
  else if 1 / 2 < q - ⌊q⌋₊ then ⌊q⌋₊ + 1
  else if ⌊q⌋₊ % 2 = 0 then ⌊q⌋₊
  else ⌊q⌋₊ + 1

theorem roundHalfEven_eq {r : Nat × Nat} (hr : 0 < r.2) :
    roundHalfEven r.1 r.2 = halfEven (value r) := by
  have hden : (0 : ℚ) < r.2 := by exact_mod_cast hr
  have hfloor : ⌊value r⌋₊ = r.1 / r.2 := Nat.floor_div_eq_div r.1 r.2
  have hrest : value r - (r.1 / r.2 : Nat) = (r.1 % r.2 : Nat) / r.2 := by
    have hsplit : (r.1 : ℚ) = r.2 * (r.1 / r.2 : Nat) + (r.1 % r.2 : Nat) := by
      exact_mod_cast (Nat.div_add_mod r.1 r.2).symm
    rw [value, sub_eq_iff_eq_add, div_add' _ _ _ hden.ne', div_left_inj' hden.ne', hsplit]
    ring
  have hbelow : (r.1 % r.2 : Nat) / (r.2 : ℚ) < 1 / 2 ↔ 2 * (r.1 % r.2) < r.2 := by
    rw [div_lt_div_iff₀ hden two_pos, one_mul, mul_comm]
    exact_mod_cast Iff.rfl
  have habove : 1 / 2 < (r.1 % r.2 : Nat) / (r.2 : ℚ) ↔ r.2 < 2 * (r.1 % r.2) := by
    rw [div_lt_div_iff₀ two_pos hden, one_mul, mul_comm]
    exact_mod_cast Iff.rfl
  simp only [roundHalfEven, halfEven, hfloor, hrest, hbelow, habove]

theorem halfEven_natCast (n : Nat) : halfEven n = n := by
  simp [halfEven]

/-! The exponent of a ratio. -/

theorem value_pos {r : Nat × Nat} (hn : 0 < r.1) (hd : 0 < r.2) : 0 < value r := by
  unfold value
  positivity

theorem le_value_scale_iff {num den : Nat} (hd : 0 < den) (e : Int) :
    (scale 2 num den (-e)).2 ≤ (scale 2 num den (-e)).1 ↔ (2 : ℚ) ^ e ≤ value (num, den) := by
  have hpos : (0 : ℚ) < ((scale 2 num den (-e)).2 : ℚ) := by
    exact_mod_cast scale_pos Nat.two_pos num hd (-e)
  have hv : value (scale 2 num den (-e)) = value (num, den) * (2 : ℚ) ^ (-e) :=
    value_scale Nat.two_pos num den (-e)
  rw [zpow_neg, ← div_eq_mul_inv] at hv
  rw [← Nat.cast_le (α := ℚ), ← one_le_div hpos]
  change 1 ≤ value (scale 2 num den (-e)) ↔ _
  rw [hv, one_le_div (zpow_pos two_pos e)]

theorem log_eq {base : Nat} (hb : 1 < base) {q : ℚ} {e : Int} (hle : (base : ℚ) ^ e ≤ q)
    (hlt : q < (base : ℚ) ^ (e + 1)) : Int.log base q = e := by
  have hbase : (0 : ℚ) < base := by positivity
  have hpos : 0 < q := lt_of_lt_of_le (zpow_pos hbase e) hle
  have h₁ := (Int.zpow_le_iff_le_log hb hpos).1 hle
  have h₂ := (Int.lt_zpow_iff_log_lt hb hpos).1 hlt
  omega

theorem log2_bounds {n : Nat} (h : 0 < n) :
    (2 : ℚ) ^ (n.log2 : Int) ≤ n ∧ (n : ℚ) < 2 ^ (n.log2 + 1 : Int) := by
  constructor
  · exact_mod_cast Nat.log2_self_le (Nat.ne_of_gt h)
  · exact_mod_cast Nat.lt_log2_self

theorem binaryExponent_eq {num den : Nat} (hn : 0 < num) (hd : 0 < den) :
    binaryExponent num den = Int.log 2 (value (num, den)) := by
  obtain ⟨hnle, hnlt⟩ := log2_bounds hn
  obtain ⟨hdle, hdlt⟩ := log2_bounds hd
  have hden : (0 : ℚ) < den := by exact_mod_cast hd
  let guess : Int := num.log2 - den.log2
  have hlow : (2 : ℚ) ^ (guess - 1) ≤ value (num, den) := by
    refine (le_div_iff₀ hden).2 (le_trans ?_ hnle)
    have hsum : (2 : ℚ) ^ (num.log2 : Int) = 2 ^ (guess - 1) * 2 ^ (den.log2 + 1 : Int) := by
      rw [← zpow_add₀ two_ne_zero]
      congr 1
      omega
    rw [hsum]
    exact mul_le_mul_of_nonneg_left hdlt.le (zpow_nonneg zero_le_two _)
  have hhigh : value (num, den) < (2 : ℚ) ^ (guess + 1) := by
    refine (div_lt_iff₀ hden).2 (lt_of_lt_of_le hnlt ?_)
    have hsum : (2 : ℚ) ^ (num.log2 + 1 : Int) = 2 ^ (guess + 1) * 2 ^ (den.log2 : Int) := by
      rw [← zpow_add₀ two_ne_zero]
      congr 1
      omega
    rw [hsum]
    exact mul_le_mul_of_nonneg_left hdle (zpow_nonneg zero_le_two _)
  have hcmp := @le_value_scale_iff num den hd guess
  unfold binaryExponent
  dsimp only
  split
  · case isTrue h => exact (log_eq one_lt_two (hcmp.1 h) hhigh).symm
  · case isFalse h =>
    refine (log_eq one_lt_two hlow ?_).symm
    rw [sub_add_cancel]
    exact lt_of_not_ge fun hge => h (hcmp.2 hge)

/-! The pattern of the nearest number. -/

/-- The exponent of the last place that a number near the value has. -/
def lastPlace (q : ℚ) : Int :=
  if Int.log 2 q - 52 < -1074 then -1074 else Int.log 2 q - 52

/-- The pattern of the number nearest to a value. -/
def pattern (q : ℚ) : Nat :=
  if q = 0 then 0
  else
    let bits := (lastPlace q + 1074).toNat * 0x10000000000000 +
      halfEven (q * (2 : ℚ) ^ (-lastPlace q))
    if bits < 0x7FF0000000000000 then bits else 0x7FF0000000000000

theorem nearestBits_eq {num den : Nat} (hd : 0 < den) :
    nearestBits num den = pattern (value (num, den)) := by
  rcases Nat.eq_zero_or_pos num with rfl | hn
  · simp [nearestBits, pattern, value]
  · have hv := value_scale Nat.two_pos num den (-lastPlace (value (num, den)))
    have hr := roundHalfEven_eq (scale_pos Nat.two_pos num hd (-lastPlace (value (num, den))))
    rw [hv] at hr
    unfold nearestBits pattern
    rw [if_neg (Nat.ne_of_gt hn), if_neg (value_pos hn hd).ne', binaryExponent_eq hn hd]
    exact congrArg (fun n => if _ + n < _ then _ + n else _) hr

theorem pattern_le (q : ℚ) : pattern q ≤ 0x7FF0000000000000 := by
  unfold pattern
  split
  · exact Nat.zero_le _
  · dsimp only
    split <;> omega

/-! The patterns of numbers. -/

section

open Float.Model Float.Model.UnpackedFloat

theorem isNaNBits_of_le {b : BitVec Format.binary64.numBits} (h : b.toNat ≤ 0x7FF0000000000000) :
    isNaNBits b = false := by
  simp only [isNaNBits, decide_eq_false_iff_not, not_and_or, not_not]
  by_cases he : unpackExponent b = -1#_
  · right
    have hexp := congrArg BitVec.toNat he
    rw [unpackExponent_def] at hexp
    rw [unpackMantissa_def]
    apply BitVec.eq_of_toNat_eq
    simp only [BitVec.extractLsb'_toNat, Nat.shiftRight_eq_div_pow] at hexp ⊢
    change b.toNat / 2 ^ 52 % 2 ^ 11 = (-1#11).toNat at hexp
    change b.toNat / 2 ^ 0 % 2 ^ 52 = 0
    have hfull : (-1#11).toNat = 2047 := rfl
    omega
  · exact .inl he

/-- A pattern up to that of infinity is kept. -/
theorem toBits_ofBits {bits : Nat} (h : bits ≤ 0x7FF0000000000000) :
    (Float.ofBits (UInt64.ofNat bits)).toBits.toNat = bits := by
  have hnat : (UInt64.ofNat bits).toBitVec.toNat = bits := by
    change bits % 2 ^ 64 = bits
    omega
  have hkept : UnpackedFloat.pack .binary64
      (UnpackedFloat.unpack .binary64 (UInt64.ofNat bits).toBitVec) =
      (UInt64.ofNat bits).toBitVec := by
    rw [pack_unpack, isNaNBits_of_le (by omega)]
    rfl
  change (UnpackedFloat.pack .binary64 _).toNat = bits
  exact (congrArg BitVec.toNat hkept).trans hnat

end

theorem toBits_nearest {num den : Nat} (hd : 0 < den) :
    (nearest num den).toBits.toNat = pattern (value (num, den)) := by
  rw [nearest, nearestBits_eq hd, toBits_ofBits (pattern_le _)]

theorem exact_of_toBits {x : Float} (h : x.toBits.toNat < 0x7FF0000000000000) :
    ∃ s e, exact x = .finite false s e := by
  have hnegative : decide (0x8000000000000000 ≤ x.toBits.toNat) = false := by
    rw [decide_eq_false_iff_not]
    omega
  have hfield : ¬ x.toBits.toNat / 0x10000000000000 % 0x800 = 0x7FF := by omega
  unfold exact
  dsimp only
  rw [hnegative, if_neg hfield]
  split
  · exact ⟨_, _, rfl⟩
  · exact ⟨_, _, rfl⟩

/-- What is nearest to a ratio is infinity or finite, and not negative. -/
theorem exact_nearest (num : Nat) {den : Nat} (hd : 0 < den) :
    nearest num den = infinity ∨ ∃ s e, exact (nearest num den) = .finite false s e := by
  rcases Nat.lt_or_eq_of_le (pattern_le (value (num, den))) with hlt | heq
  · exact .inr (exact_of_toBits (by rwa [toBits_nearest hd]))
  · left
    rw [nearest, nearestBits_eq hd, heq]
    rfl

/-- The fields of a finite number that is not negative. -/
theorem exact_finite {x : Float} {s : Nat} {e : Int} (h : exact x = .finite false s e) :
    ∃ field fraction, x.toBits.toNat = field * 0x10000000000000 + fraction ∧ field < 0x7FF ∧
      fraction < 0x10000000000000 ∧ (field = 0 ∧ s = fraction ∧ e = -1074 ∨
        0 < field ∧ s = 0x10000000000000 + fraction ∧ e = field - 1075) := by
  unfold exact at h
  have hlt : x.toBits.toNat < 0x10000000000000000 := x.toBits.toNat_lt
  generalize x.toBits.toNat = bits at h hlt
  dsimp only at h
  split at h
  · split at h <;> cases h
  · split at h
    · simp only [Exact.finite.injEq, decide_eq_false_iff_not, not_le] at h
      exact ⟨0, bits, by omega, by omega, by omega, .inl ⟨rfl, by omega, by omega⟩⟩
    · simp only [Exact.finite.injEq, decide_eq_false_iff_not, not_le] at h
      exact ⟨bits / 0x10000000000000, bits % 0x10000000000000, by omega, by omega, by omega,
        .inr ⟨by omega, by omega, by omega⟩⟩

theorem log_mul_zpow {s k : Nat} (e : Int) (hle : 2 ^ k ≤ s) (hlt : s < 2 ^ (k + 1)) :
    Int.log 2 (s * (2 : ℚ) ^ e) = k + e := by
  have hpos : (0 : ℚ) < 2 ^ e := zpow_pos two_pos e
  apply log_eq one_lt_two
  · rw [Nat.cast_ofNat, zpow_add₀ two_ne_zero, zpow_natCast]
    exact mul_le_mul_of_nonneg_right (by exact_mod_cast hle) hpos.le
  · rw [Nat.cast_ofNat, add_right_comm, zpow_add₀ two_ne_zero]
    exact mul_lt_mul_of_pos_right (by exact_mod_cast hlt) hpos

/-- A significand at its own last place is not rounded. -/
theorem pattern_of_lastPlace {s : Nat} {e : Int} (hs : s ≠ 0)
    (hplace : lastPlace (s * (2 : ℚ) ^ e) = e)
    (hlt : (e + 1074).toNat * 0x10000000000000 + s < 0x7FF0000000000000) :
    pattern (s * (2 : ℚ) ^ e) = (e + 1074).toNat * 0x10000000000000 + s := by
  have hpow : (2 : ℚ) ^ e ≠ 0 := zpow_ne_zero e two_ne_zero
  have hint : (s : ℚ) * 2 ^ e * 2 ^ (-e) = s := by
    rw [mul_assoc, ← zpow_add₀ two_ne_zero, add_neg_cancel, zpow_zero, mul_one]
  unfold pattern
  rw [if_neg (mul_ne_zero (by exact_mod_cast hs) hpow), hplace, hint, halfEven_natCast]
  exact if_pos hlt

theorem lastPlace_subnormal {s : Nat} (hs : s ≠ 0) (hlt : s < 0x10000000000000) :
    lastPlace (s * (2 : ℚ) ^ (-1074 : Int)) = -1074 := by
  have hpos : (0 : ℚ) < s := by exact_mod_cast Nat.pos_of_ne_zero hs
  have hbound : (s : ℚ) * 2 ^ (-1074 : Int) < 2 ^ (-1022 : Int) := by
    have hsplit : (2 : ℚ) ^ (-1022 : Int) = 2 ^ 52 * 2 ^ (-1074 : Int) := by
      rw [← zpow_natCast, ← zpow_add₀ two_ne_zero]
      rfl
    rw [hsplit]
    exact mul_lt_mul_of_pos_right (by exact_mod_cast hlt) (zpow_pos two_pos _)
  have hlog := (Int.lt_zpow_iff_log_lt one_lt_two
    (mul_pos hpos (zpow_pos two_pos _))).1 hbound
  exact if_pos (by omega)

theorem lastPlace_normal {s : Nat} {e : Int} (hle : 0x10000000000000 ≤ s)
    (hlt : s < 0x20000000000000) (he : -1074 ≤ e) : lastPlace (s * (2 : ℚ) ^ e) = e := by
  have hlog : Int.log 2 (s * (2 : ℚ) ^ e) = (52 : Nat) + e := log_mul_zpow e hle hlt
  unfold lastPlace
  rw [hlog, if_neg (by omega)]
  omega

/-- The number nearest to the value of a number is that number. -/
theorem nearest_exact {x : Float} {s : Nat} {e : Int} (h : exact x = .finite false s e)
    {num den : Nat} (hd : 0 < den) (hv : value (num, den) = s * (2 : ℚ) ^ e) :
    nearest num den = x := by
  obtain ⟨field, fraction, hbits, hfield, hfraction, hcase⟩ := exact_finite h
  rw [← Float.toBits_inj, ← UInt64.toNat_inj, toBits_nearest hd, hv, hbits]
  rcases hcase with ⟨rfl, rfl, rfl⟩ | ⟨hpos, rfl, rfl⟩
  · by_cases hs : s = 0
    · subst hs
      simp [pattern]
    · have hplace := lastPlace_subnormal hs hfraction
      exact (pattern_of_lastPlace hs hplace (by omega)).trans (by omega)
  · have hplace : lastPlace ((0x10000000000000 + fraction : Nat) * (2 : ℚ) ^ (field - 1075 : Int)) =
        field - 1075 := lastPlace_normal (by omega) (by omega) (by omega)
    exact (pattern_of_lastPlace (by omega) hplace (by omega)).trans (by omega)

end Offside.Number
