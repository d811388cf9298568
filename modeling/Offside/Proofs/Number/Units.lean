import Offside.Proofs.Number.Unpacked

/-!
Every finite number is a multiple of the smallest one above zero, and computing with numbers is
computing with these multiples. Comparing them is exact; a sum or a difference is so where it fits,
and otherwise has at least the right sign.
-/

namespace Offside.Number

open Float.Model Float.Model.UnpackedFloat

/-- What is unpacked is finite, and it is `z` times the smallest number above zero. -/
inductive Counts : UnpackedFloat → Int → Prop
  | zero (sg : Sign) : Counts (.zero sg) 0
  | finite (sg : Sign) (h : Canonical s e) (hle : e ≤ 971) :
      Counts (.finite sg s e h.pos) (sg.apply (magnitude s e))

theorem Canonical.magnitude_pos {s : Nat} {e : Int} (h : Canonical s e) : 0 < magnitude s e :=
  Nat.mul_pos h.pos (Nat.two_pow_pos _)

theorem Canonical.negative_lt {s : Nat} {e : Int} (h : Canonical s e) :
    Sign.negative.apply (magnitude s e) < 0 :=
  Int.neg_neg_of_pos (Int.natCast_pos.2 h.magnitude_pos)

theorem Canonical.positive_gt {s : Nat} {e : Int} (h : Canonical s e) :
    0 < Sign.positive.apply (magnitude s e) :=
  Int.natCast_pos.2 h.magnitude_pos

/-- The exponent decides first, since the leading digit of the larger one is in front. -/
theorem Canonical.magnitude_lt_of_exponent {s s' : Nat} {e e' : Int} (h : Canonical s e)
    (h' : Canonical s' e') (he : e < e') : magnitude s e < magnitude s' e' := by
  have hle := h.le_exponent
  have hleading : 0x10000000000000 ≤ s' := by
    have := h'.leading
    omega
  have hpow : (e + 1074).toNat + 1 ≤ (e' + 1074).toNat := by omega
  calc magnitude s e < 2 ^ 53 * 2 ^ (e + 1074).toNat :=
        Nat.mul_lt_mul_of_pos_right h.lt (Nat.two_pow_pos _)
    _ = 2 ^ 52 * 2 ^ ((e + 1074).toNat + 1) := by rw [Nat.pow_succ]; ring
    _ ≤ magnitude s' e' := Nat.mul_le_mul hleading (Nat.pow_le_pow_right Nat.two_pos hpow)

theorem Canonical.compare_magnitude {s s' : Nat} {e e' : Int} (h : Canonical s e)
    (h' : Canonical s' e') :
    (compare e e').then (compare s s') = compare (magnitude s e) (magnitude s' e') := by
  rcases lt_trichotomy e e' with he | rfl | he
  · rw [compare_lt_iff_lt.2 he, compare_lt_iff_lt.2 (h.magnitude_lt_of_exponent h' he)]
    rfl
  · have hpow := Nat.two_pow_pos (e + 1074).toNat
    rw [compare_eq_iff_eq.2 rfl]
    change compare s s' = _
    rcases lt_trichotomy s s' with hs | rfl | hs
    · rw [compare_lt_iff_lt.2 hs]
      exact (compare_lt_iff_lt.2 (Nat.mul_lt_mul_of_pos_right hs hpow)).symm
    · rw [compare_eq_iff_eq.2 rfl, compare_eq_iff_eq.2 rfl]
    · rw [compare_gt_iff_gt.2 hs]
      exact (compare_gt_iff_gt.2 (Nat.mul_lt_mul_of_pos_right hs hpow)).symm
  · rw [compare_gt_iff_gt.2 he, compare_gt_iff_gt.2 (h'.magnitude_lt_of_exponent h he)]
    rfl

theorem compare_natCast (m n : Nat) : compare (m : Int) n = compare m n := by
  rcases lt_trichotomy m n with h | rfl | h
  · rw [compare_lt_iff_lt.2 h, compare_lt_iff_lt.2 (Int.ofNat_lt.2 h)]
  · rw [compare_eq_iff_eq.2 rfl, compare_eq_iff_eq.2 rfl]
  · rw [compare_gt_iff_gt.2 h, compare_gt_iff_gt.2 (Int.ofNat_lt.2 h)]

theorem compare_neg_natCast (m n : Nat) : compare (-(m : Int)) (-n) = (compare m n).swap := by
  rw [← compare_natCast]
  rcases lt_trichotomy (m : Int) n with h | h | h
  · rw [compare_lt_iff_lt.2 h, compare_gt_iff_gt.2 (neg_lt_neg h), Ordering.swap_lt]
  · rw [h, compare_eq_iff_eq.2 rfl, compare_eq_iff_eq.2 rfl, Ordering.swap_eq]
  · rw [compare_gt_iff_gt.2 h, compare_lt_iff_lt.2 (neg_lt_neg h), Ordering.swap_gt]

namespace Counts

variable {u v : UnpackedFloat} {a b : Int}

/-- Finite numbers compare as what they count. -/
theorem compare_eq (hu : Counts u a) (hv : Counts v b) : u.compare v = some (compare a b) := by
  have of_lt {a b : Int} (h : a < b) : some .lt = some (compare a b) :=
    congrArg some (compare_lt_iff_lt.2 h).symm
  have of_gt {a b : Int} (h : b < a) : some .gt = some (compare a b) :=
    congrArg some (compare_gt_iff_gt.2 h).symm
  cases hu with
  | zero sg =>
    cases hv with
    | zero sg' => rfl
    | finite sg' h' hle' =>
      cases sg' with
      | negative => exact of_gt h'.negative_lt
      | positive => exact of_lt h'.positive_gt
  | finite sg h hle =>
    cases hv with
    | zero sg' =>
      cases sg with
      | negative => exact of_lt h.negative_lt
      | positive => exact of_gt h.positive_gt
    | finite sg' h' hle' =>
      cases sg with
      | negative =>
        cases sg' with
        | negative =>
          refine congrArg some ?_
          rw [h.compare_magnitude h']
          exact (compare_neg_natCast _ _).symm
        | positive => exact of_lt (h.negative_lt.trans h'.positive_gt)
      | positive =>
        cases sg' with
        | negative => exact of_gt (h'.negative_lt.trans h.positive_gt)
        | positive =>
          refine congrArg some ?_
          rw [h.compare_magnitude h']
          exact (compare_natCast _ _).symm

theorem neg (hu : Counts u a) : Counts u.neg (-a) := by
  cases hu with
  | zero sg => exact .zero (-sg)
  | @finite s e sg h hle =>
    have hsign : (-sg).apply (magnitude s e) = -sg.apply (magnitude s e) := by
      cases sg
      · exact (neg_neg _).symm
      · rfl
    exact hsign ▸ .finite (-sg) h hle

theorem unpack_pack_self (hu : Counts u a) : (Float.Model.pack u).unpack = u := by
  cases hu with
  | zero sg => cases sg <;> rfl
  | finite sg h hle => rw [unpack_pack h, if_neg (by omega)]

end Counts

/-- What is unpacked is `z` units, up to rounding. -/
structure Rounds (u : UnpackedFloat) (z : Int) : Prop where
  exact_of_fits : Fits z.natAbs → Counts u z
  below : z < 0 → u.compare (.zero .positive) = some .lt
  above : 0 < z → u.compare (.zero .positive) = some .gt

theorem Counts.rounds {u : UnpackedFloat} {z : Int} (h : Counts u z) : Rounds u z where
  exact_of_fits _ := h
  below hz := (h.compare_eq (.zero .positive)).trans (congrArg some (compare_lt_iff_lt.2 hz))
  above hz := (h.compare_eq (.zero .positive)).trans (congrArg some (compare_gt_iff_gt.2 hz))

theorem Counts.kept {u : UnpackedFloat} {z : Int} (h : Counts u z) :
    Rounds (Float.Model.pack u).unpack z := by
  rw [h.unpack_pack_self]
  exact h.rounds

theorem Canonical.le_of_fits {s : Nat} {e : Int} (h : Canonical s e)
    (hfits : Fits (magnitude s e)) : e ≤ 971 := by
  by_contra hlarge
  obtain ⟨n, k, hn, hk, heq⟩ := hfits
  have hleading : 0x10000000000000 ≤ s := by
    have := h.leading
    omega
  have hlt : n * 2 ^ k < magnitude s e := calc
    n * 2 ^ k < 2 ^ 53 * 2 ^ k := Nat.mul_lt_mul_of_pos_right hn (Nat.two_pow_pos k)
    _ = 2 ^ 52 * 2 ^ (k + 1) := by rw [Nat.pow_succ]; ring
    _ ≤ magnitude s e := Nat.mul_le_mul hleading (Nat.pow_le_pow_right Nat.two_pos (by omega))
  omega

theorem round_rounds (sg : Sign) {s : Nat} {e : Int} (hpos : 0 < s) (he : -1074 ≤ e) :
    Rounds (Float.Model.pack (UnpackedFloat.round .binary64 sg s e)).unpack
      (sg.apply (magnitude s e)) := by
  obtain ⟨s', e', h, hround, hexact⟩ := round_canonical sg hpos he
  have hmagnitude : 0 < magnitude s e := Nat.mul_pos hpos (Nat.two_pow_pos _)
  rw [hround, unpack_pack h]
  constructor
  · intro hfits
    have habs : (sg.apply (magnitude s e)).natAbs = magnitude s e := by
      cases sg <;> simp [Sign.apply]
    rw [habs] at hfits
    have hle : e' ≤ 971 := h.le_of_fits (by rwa [hexact hfits])
    rw [if_neg (by omega), ← hexact hfits]
    exact .finite sg h hle
  · intro hneg
    cases sg with
    | negative => split <;> rfl
    | positive => simp only [Sign.apply] at hneg; omega
  · intro hpos
    cases sg with
    | negative => simp only [Sign.apply] at hpos; omega
    | positive => split <;> rfl

theorem normalize_rounds (n : Int) {e : Int} (he : -1074 ≤ e) :
    Rounds (Float.Model.pack (UnpackedFloat.normalize .binary64 n e .positive)).unpack
      (n * 2 ^ (e + 1074).toNat) := by
  unfold UnpackedFloat.normalize
  rcases lt_trichotomy n 0 with hn | rfl | hn
  · rw [compare_lt_iff_lt.2 hn]
    have h := round_rounds .negative (s := (-n).toNat) (e := e) (by omega) he
    have hz : Sign.negative.apply (magnitude (-n).toNat e) = n * 2 ^ (e + 1074).toNat := by
      rw [Sign.apply, magnitude, Nat.cast_mul, Int.toNat_of_nonneg (by omega)]
      push_cast
      ring
    exact hz ▸ h
  · rw [compare_eq_iff_eq.2 rfl, zero_mul]
    exact (Counts.zero .positive).kept
  · rw [compare_gt_iff_gt.2 hn]
    have h := round_rounds .positive (s := n.toNat) (e := e) (by omega) he
    have hz : Sign.positive.apply (magnitude n.toNat e) = n * 2 ^ (e + 1074).toNat := by
      rw [Sign.apply, magnitude, Nat.cast_mul, Int.toNat_of_nonneg (by omega)]
      push_cast
      ring
    exact hz ▸ h

theorem signed_shift (sg : Sign) (s k : Nat) :
    sg.apply ((s <<< k : Nat) : Int) = sg.apply s * 2 ^ k := by
  rw [Nat.shiftLeft_eq]
  cases sg
  · simp only [Sign.apply]
    push_cast
    ring
  · simp only [Sign.apply]
    push_cast
    rfl

theorem signed_magnitude (sg : Sign) (s : Nat) (e : Int) :
    sg.apply (magnitude s e) = sg.apply s * 2 ^ (e + 1074).toNat := by
  rw [magnitude, ← Nat.shiftLeft_eq, signed_shift]

/-- At the lesser of two exponents, both significands are whole. -/
theorem signed_decrease (sg : Sign) (s : Nat) {e least : Int} (hle : least ≤ e)
    (hleast : -1074 ≤ least) :
    sg.apply (decreaseExponent s e least).1 * 2 ^ (least + 1074).toNat =
      sg.apply (magnitude s e) := by
  have hsum : (e + 1074).toNat = (e - least).toNat + (least + 1074).toNat := by omega
  rw [signed_magnitude, hsum, pow_add, ← mul_assoc]
  exact congrArg (· * _) (signed_shift sg s (e - least).toNat)

theorem Counts.add {u v : UnpackedFloat} {a b : Int} (hu : Counts u a) (hv : Counts v b) :
    Rounds (Float.Model.pack (UnpackedFloat.add .binary64 u v)).unpack (a + b) := by
  cases hu with
  | zero sg =>
    cases hv with
    | zero sg' => cases sg <;> cases sg' <;> exact (Counts.zero _).kept
    | finite sg' h' hle' =>
      rw [zero_add]
      exact (Counts.finite sg' h' hle').kept
  | @finite s e sg h hle =>
    cases hv with
    | zero sg' =>
      rw [add_zero]
      exact (Counts.finite sg h hle).kept
    | @finite s' e' sg' h' hle' =>
      have hmin := le_min h.le_exponent h'.le_exponent
      have hsum := normalize_rounds (sg.apply (decreaseExponent s e (min e e')).1 +
        sg'.apply (decreaseExponent s' e' (min e e')).1) hmin
      rw [add_mul, signed_decrease sg s (min_le_left _ _) hmin,
        signed_decrease sg' s' (min_le_right _ _) hmin] at hsum
      exact hsum

theorem sub_eq (u v : UnpackedFloat) :
    UnpackedFloat.sub .binary64 u v = UnpackedFloat.add .binary64 u v.neg := by
  cases u with
  | finite sg s e h =>
    cases v with
    | finite sg' s' e' h' =>
      have hsign : ∀ n : Nat, (-sg').apply n = -sg'.apply n := by
        intro n
        cases sg'
        · exact (neg_neg _).symm
        · rfl
      simp only [UnpackedFloat.sub, UnpackedFloat.add, UnpackedFloat.neg, hsign, Int.sub_eq_add_neg]
    | _ => rfl
  | _ => cases v <;> rfl

/-! Numbers. -/

/-- The number is finite, and it is `z` times the smallest number above zero. -/
def Units (x : Float) (z : Int) : Prop :=
  Counts x.toModel.unpack z

theorem exact_shape {x : Float} {negative : Bool} {s : Nat} {e : Int}
    (h : exact x = .finite negative s e) :
    s < 0x20000000000000 ∧ -1074 ≤ e ∧ e ≤ 971 ∧ (0x10000000000000 ≤ s ∨ e = -1074) := by
  obtain ⟨negative', field, fraction, hb⟩ := exists_fields x.toModel.toBits.toBitVec
  rw [exact_of_fields hb, Exact.ofFields] at h
  have hfield : field.toNat < 0x800 := field.isLt
  have hfraction : fraction.toNat < 0x10000000000000 := fraction.isLt
  split at h
  · split at h <;> cases h
  · split at h <;> simp only [Exact.finite.injEq] at h <;> omega

theorem units_iff {x : Float} {z : Int} :
    Units x z ↔ ∃ negative s e, exact x = .finite negative s e ∧
      z = (sign negative).apply (magnitude s e) := by
  unfold Units
  rw [unpack_eq]
  constructor
  · intro h
    cases hx : exact x with
    | nan =>
      rw [hx] at h
      cases h
    | infinite negative =>
      rw [hx] at h
      cases h
    | finite negative s e =>
      refine ⟨negative, s, e, rfl, ?_⟩
      rw [hx, Exact.unpacked] at h
      split at h
      · case isTrue hs =>
        subst hs
        cases h
        rw [magnitude, Nat.zero_mul]
        cases negative <;> rfl
      · cases h
        rfl
  · rintro ⟨negative, s, e, hx, rfl⟩
    obtain ⟨hlt, hge, hle, hleading⟩ := exact_shape hx
    rw [hx, Exact.unpacked]
    split
    · case isTrue hs =>
      subst hs
      rw [magnitude, Nat.zero_mul]
      cases negative <;> exact .zero _
    · case isFalse hs =>
      exact .finite _ ⟨Nat.pos_of_ne_zero hs, hlt, hge, hleading⟩ hle

theorem lt_iff_compare (x y : Float) :
    x < y ↔ x.toModel.unpack.compare y.toModel.unpack = some .lt :=
  decide_eq_true_iff.trans beq_iff_eq

theorem le_iff_compare (x y : Float) :
    x ≤ y ↔ (x.toModel.unpack.compare y.toModel.unpack).any Ordering.isLE :=
  decide_eq_true_iff

theorem beq_iff_compare (x y : Float) :
    x == y ↔ x.toModel.unpack.compare y.toModel.unpack = some .eq := by
  change (x.toModel.unpack.compare y.toModel.unpack == some .eq) = true ↔ _
  exact beq_iff_eq

namespace Units

variable {x y : Float} {a b : Int}

theorem lt_iff (hx : Units x a) (hy : Units y b) : x < y ↔ a < b := by
  rw [lt_iff_compare, hx.compare_eq hy, Option.some.injEq, compare_lt_iff_lt]

theorem le_iff (hx : Units x a) (hy : Units y b) : x ≤ y ↔ a ≤ b := by
  rw [le_iff_compare, hx.compare_eq hy, Option.any_some, Ordering.isLE_iff_ne_gt]
  exact compare_le_iff_le

theorem zero : Units 0 0 :=
  Counts.zero .positive

theorem neg (hx : Units x a) : Units (Float.neg x) (-a) := by
  have h : Float.Model.unpack (Float.Model.pack x.toModel.unpack.neg) = x.toModel.unpack.neg :=
    (Counts.neg hx).unpack_pack_self
  change Counts (Float.Model.unpack (Float.Model.pack x.toModel.unpack.neg)) (-a)
  rw [h]
  exact Counts.neg hx

/-- A sum is exact where it fits. Otherwise it has the right sign. -/
theorem add (hx : Units x a) (hy : Units y b) : Rounds (x + y).toModel.unpack (a + b) :=
  Counts.add hx hy

theorem sub (hx : Units x a) (hy : Units y b) : Rounds (x - y).toModel.unpack (a - b) := by
  change Rounds (Float.Model.pack (UnpackedFloat.sub _ x.toModel.unpack y.toModel.unpack)).unpack _
  rw [sub_eq]
  exact Counts.add hx (Counts.neg hy)

theorem unique (hx : Units x a) (hx' : Units x b) : a = b := by
  have h := hx.compare_eq hx'
  have h' := hx.compare_eq hx
  rw [h', compare_eq_iff_eq.2 rfl] at h
  exact compare_eq_iff_eq.1 (Option.some.inj h).symm

end Units


/-! The part in front of the point. -/

/-- How often the smallest number above zero goes into one. -/
@[irreducible] def one : Nat :=
  magnitude 1 0

theorem one_eq : one = 2 ^ (0 + 1074 : Int).toNat := by
  unfold one
  exact Nat.one_mul _

theorem one_pos : 0 < one := by
  rw [one_eq]
  exact Nat.two_pow_pos _

theorem scale_two (s : Nat) (e : Int) : scale 2 s 1 e = (s * 2 ^ e.toNat, 2 ^ (-e).toNat) := by
  cases e with
  | ofNat k =>
    have hzero : (-Int.ofNat k).toNat = 0 := by
      rw [Int.ofNat_eq_natCast]
      omega
    rw [hzero]
    rfl
  | negSucc k => exact Prod.ext (Nat.mul_one s).symm (Nat.one_mul _)

theorem magnitude_mul (s : Nat) {e : Int} (he : -1074 ≤ e) :
    magnitude s e * 2 ^ (-e).toNat = s * 2 ^ e.toNat * one := by
  have hsum : (e + 1074).toNat + (-e).toNat = e.toNat + (0 + 1074 : Int).toNat := by omega
  rw [magnitude, Nat.mul_assoc, ← Nat.pow_add, hsum, Nat.pow_add, ← Nat.mul_assoc, one_eq]

/-- The ratio that a number is of is an integer exactly if it counts a multiple of one. -/
theorem eq_mul_iff {s p : Nat} {e : Int} (he : -1074 ≤ e) :
    s * 2 ^ e.toNat = p * 2 ^ (-e).toNat ↔ magnitude s e = p * one := by
  rw [← Nat.mul_left_inj one_pos.ne', ← magnitude_mul s he, Nat.mul_right_comm]
  exact Nat.mul_left_inj (Nat.two_pow_pos _).ne'

theorem Counts.toInt_eq {u : UnpackedFloat} {p : Nat} (h : Counts u (p * one)) (low high : Int) :
    u.toInt low high = p := by
  have hone := one_pos
  generalize hz : (p * one : Int) = z at h
  cases h with
  | zero sg =>
    obtain rfl : p = 0 := by
      rcases mul_eq_zero.1 hz with hp | hzero <;> omega
    rfl
  | @finite s e sg h hle =>
    have hpos := h.magnitude_pos
    cases sg with
    | negative =>
      simp only [Sign.apply] at hz
      have : (0 : Int) ≤ p * one := by positivity
      omega
    | positive =>
      have hp := (eq_mul_iff h.le_exponent).2 (Int.ofNat_inj.1 hz).symm
      have hshift : (0 - (e - (e - 0).toNat)).toNat = (-e).toNat := by omega
      change (((⟨s <<< (e - 0).toNat, false, false⟩ : ExtendedMantissa) >>>
        (0 - (e - (e - 0).toNat)).toNat).mantissa : Int) = p
      rw [hshift, mantissa_shift, sub_zero]
      change ((s <<< e.toNat / 2 ^ (-e).toNat : Nat) : Int) = p
      rw [Nat.shiftLeft_eq, hp, Nat.mul_div_cancel _ (Nat.two_pow_pos _)]

theorem Units.toUInt64_eq {x : Float} {p : Nat} (h : Units x (p * one)) (hp : p < 2 ^ 64) :
    x.toUInt64.toNat = p := by
  change (UInt64.ofNatClamp (x.toModel.unpack.toInt 0 (UInt64.size - 1)).toNat).toNat = p
  rw [h.toInt_eq, Int.toNat_natCast, UInt64.ofNatClamp,
    dif_pos (show p < UInt64.size from hp)]
  rfl


theorem cast_one : (one : ℚ) = 2 ^ (1074 : Int) := by
  rw [one_eq, Nat.cast_pow, Nat.cast_ofNat, ← zpow_natCast, Int.toNat_of_nonneg (by decide),
    zero_add]

theorem cast_magnitude (s : Nat) {e : Int} (he : -1074 ≤ e) :
    (magnitude s e : ℚ) = s * 2 ^ e * one := by
  rw [cast_one, magnitude, Nat.cast_mul, Nat.cast_pow, Nat.cast_ofNat, ← zpow_natCast,
    Int.toNat_of_nonneg (by omega), zpow_add₀ two_ne_zero, mul_assoc]

theorem fits_mul_one {n : Nat} (hn : n < 0x20000000000000) : Fits (n * one) :=
  ⟨n, (0 + 1074 : Int).toNat, hn, by decide, congrArg (n * ·) one_eq⟩

/-- A natural number that fits is nearest to itself. -/
theorem units_nearest {n : Nat} (hn : n < 0x20000000000000) : Units (nearest n 1) (n * one) := by
  obtain rfl | hpos := Nat.eq_zero_or_pos n
  · rw [Nat.cast_zero, zero_mul]
    exact Counts.zero .positive
  · have hrounds := normalize_rounds n (e := 0) (by decide)
    have hone : (2 : Int) ^ (0 + 1074 : Int).toNat = one := by
      rw [one_eq, Nat.cast_pow, Nat.cast_ofNat]
    rw [hone, ← Nat.cast_mul] at hrounds
    have hunits : Units (.ofModel (Float.Model.pack
        (UnpackedFloat.normalize .binary64 n 0 .positive))) (n * one : Nat) :=
      hrounds.exact_of_fits (fits_mul_one hn)
    obtain ⟨negative, s, e, hexact, hz⟩ := units_iff.1 hunits
    have hn' : 0 < n * one := Nat.mul_pos hpos one_pos
    cases negative with
    | true =>
      simp only [sign, if_true, Sign.apply] at hz
      omega
    | false =>
      have hmagnitude : n * one = magnitude s e := Int.ofNat_inj.1 hz
      have hvalue : value (n, 1) = s * 2 ^ e := by
        have hcast := congrArg (Nat.cast (R := ℚ)) hmagnitude
        rw [cast_magnitude s (exact_shape hexact).2.1, Nat.cast_mul] at hcast
        have hne : (one : ℚ) ≠ 0 := by exact_mod_cast one_pos.ne'
        rw [value, Nat.cast_one, div_one]
        exact mul_right_cancel₀ hne hcast
      rw [nearest_exact hexact Nat.one_pos hvalue, ← Nat.cast_mul]
      exact hunits

/-! Truncation. -/

theorem dvd_iff {s : Nat} {e : Int} (he : -1074 ≤ e) (negative : Bool) :
    2 ^ (-e).toNat ∣ s * 2 ^ e.toNat ↔ (one : Int) ∣ (sign negative).apply (magnitude s e) := by
  have hnat : 2 ^ (-e).toNat ∣ s * 2 ^ e.toNat ↔ one ∣ magnitude s e := by
    simp only [dvd_iff_exists_eq_mul_left, eq_mul_iff he]
  rw [hnat, ← Int.natCast_dvd_natCast]
  cases negative
  · exact Iff.rfl
  · exact Int.dvd_neg.symm

/-- The part of a finite number in front of its point is the number itself exactly if that is
integral. -/
theorem units_truncate {x : Float} {z : Int} (h : Units x z) :
    ∃ t, Units (truncate x) t ∧ (t = z ↔ (one : Int) ∣ z) := by
  obtain ⟨negative, s, e, hexact, rfl⟩ := units_iff.1 h
  obtain ⟨hlt, hge, -, -⟩ := exact_shape hexact
  have hdvd := dvd_iff (s := s) hge negative
  unfold truncate
  rw [hexact]
  dsimp only
  rw [scale_two]
  dsimp only
  split
  · case isTrue hmod => exact ⟨_, h, iff_of_true rfl (hdvd.1 (Nat.dvd_of_mod_eq_zero hmod))⟩
  · case isFalse hmod =>
    have hndvd := hdvd.not.1 (mt Nat.mod_eq_zero_of_dvd hmod)
    have hneg : e < 0 := by
      by_contra hnonneg
      have hzero : (-e).toNat = 0 := by omega
      rw [hzero, Nat.pow_zero, Nat.mod_one] at hmod
      exact hmod rfl
    have hzero : e.toNat = 0 := by omega
    rw [hzero, Nat.pow_zero, Nat.mul_one]
    have hunits := units_nearest (lt_of_le_of_lt (Nat.div_le_self s (2 ^ (-e).toNat)) hlt)
    generalize s / 2 ^ (-e).toNat = q at hunits
    cases negative with
    | true =>
      refine ⟨_, hunits.neg, iff_of_false (fun heq => hndvd ?_) hndvd⟩
      exact heq ▸ (Int.dvd_mul_left _ _).neg_right
    | false =>
      refine ⟨_, hunits, iff_of_false (fun heq => hndvd ?_) hndvd⟩
      exact heq ▸ Int.dvd_mul_left _ _

theorem Rounds.compare_eq_iff {u : UnpackedFloat} {z : Int} (h : Rounds u z) :
    u.compare (.zero .positive) = some .eq ↔ z = 0 := by
  rcases lt_trichotomy z 0 with hz | rfl | hz
  · rw [h.below hz]
    simp [hz.ne]
  · have hfits : Fits (0 : Int).natAbs := ⟨0, 0, by decide, by decide, rfl⟩
    rw [(h.exact_of_fits hfits).compare_eq (.zero .positive)]
    exact iff_of_true rfl rfl
  · rw [h.above hz]
    simp [hz.ne']

/-- What is not finite is kept, and differs from itself by what is not a number. -/
theorem fraction_of_not_finite {x : Float} (h : ∀ z, ¬ Units x z) :
    (fraction x).toModel.unpack = .notANumber := by
  have hself : truncate x = x ∧ UnpackedFloat.sub .binary64 (exact x).unpacked (exact x).unpacked =
      .notANumber := by
    cases hexact : exact x with
    | nan => exact ⟨by rw [truncate, hexact], rfl⟩
    | infinite negative => exact ⟨by rw [truncate, hexact], by cases negative <;> rfl⟩
    | finite negative s e => exact absurd (units_iff.2 ⟨_, _, _, hexact, rfl⟩) (h _)
  rw [← unpack_eq x] at hself
  rw [fraction, hself.1]
  change (Float.Model.pack (UnpackedFloat.sub _ x.toModel.unpack x.toModel.unpack)).unpack = _
  rw [hself.2]
  rfl

/-- A number has nothing behind its point exactly if it is an integer. -/
theorem fraction_eq_zero_iff (x : Float) :
    fraction x == 0 ↔ ∃ i : Int, Units x (i * one) := by
  rw [beq_iff_compare]
  change (fraction x).toModel.unpack.compare (.zero .positive) = some .eq ↔ _
  by_cases hfinite : ∃ z, Units x z
  · obtain ⟨z, hz⟩ := hfinite
    obtain ⟨t, ht, hdvd⟩ := units_truncate hz
    have hrounds : Rounds (fraction x).toModel.unpack (z - t) := hz.sub ht
    rw [hrounds.compare_eq_iff, sub_eq_zero, eq_comm, hdvd, dvd_iff_exists_eq_mul_left]
    constructor
    · rintro ⟨i, rfl⟩
      exact ⟨i, hz⟩
    · rintro ⟨i, hi⟩
      exact ⟨i, hz.unique hi⟩
  · rw [fraction_of_not_finite fun z hz => hfinite ⟨z, hz⟩]
    exact iff_of_false nofun fun ⟨i, hi⟩ => hfinite ⟨_, hi⟩

/-! The value of a number. -/

/-- The value that a number has exactly, unless it is infinite or not a number. -/
def rational? (x : Float) : Option ℚ :=
  match exact x with
  | .finite negative s e => some ((if negative then -1 else 1) * (s * 2 ^ e))
  | _ => none

theorem rational?_eq_some_iff {x : Float} {q : ℚ} :
    rational? x = some q ↔ ∃ z, Units x z ∧ z = q * one := by
  have hone : (one : ℚ) ≠ 0 := by exact_mod_cast one_pos.ne'
  simp only [units_iff, rational?]
  cases hexact : exact x with
  | finite negative s e =>
    have hge := (exact_shape hexact).2.1
    have hvalue : ((sign negative).apply (magnitude s e) : ℚ) =
        (if negative then -1 else 1) * (s * 2 ^ e) * one := by
      rw [mul_assoc, ← cast_magnitude s hge]
      cases negative
      · simp [sign, Sign.apply]
      · simp [sign, Sign.apply]
    simp only [Option.some.injEq, Exact.finite.injEq]
    constructor
    · rintro rfl
      exact ⟨_, ⟨negative, s, e, ⟨rfl, rfl, rfl⟩, rfl⟩, hvalue⟩
    · rintro ⟨z, ⟨_, _, _, ⟨rfl, rfl, rfl⟩, rfl⟩, hz⟩
      exact mul_right_cancel₀ hone (hvalue.symm.trans hz)
  | _ => simp

theorem rational?_eq_intCast_iff {x : Float} {i : Int} :
    rational? x = some (i : ℚ) ↔ Units x (i * one) := by
  rw [rational?_eq_some_iff]
  constructor
  · rintro ⟨z, hz, heq⟩
    obtain rfl : z = i * one := by exact_mod_cast heq
    exact hz
  · intro h
    exact ⟨_, h, by push_cast; rfl⟩

end Offside.Number
