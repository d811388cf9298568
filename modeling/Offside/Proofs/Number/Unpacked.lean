import Offside.Proofs.Number.Nearest

/-!
The form in which numbers are computed with, and how what is computed gets back into 64 bits. A
significand is rounded to the places that there are, and it stays as it is if those suffice.
-/

namespace Offside.Number

open Float.Model Float.Model.UnpackedFloat

/-! The unpacked form. -/

def sign (negative : Bool) : Sign :=
  if negative then .negative else .positive

theorem exists_sign (sg : Sign) : ∃ negative, sg = sign negative := by
  cases sg
  · exact ⟨true, rfl⟩
  · exact ⟨false, rfl⟩

/-- The form in which numbers are computed with. It sets zero apart from what else is finite. -/
def Exact.unpacked : Exact → UnpackedFloat
  | .nan => .notANumber
  | .infinite negative => .infinity (sign negative)
  | .finite negative s e =>
    if h : s = 0 then .zero (sign negative)
    else .finite (sign negative) s e (Nat.pos_of_ne_zero h)

/-- The value with these fields. -/
def Exact.ofFields (negative : Bool) (field fraction : Nat) : Exact :=
  if field = 0x7FF then
    if fraction = 0 then .infinite negative else .nan
  else if field = 0 then
    .finite negative fraction (-1074)
  else
    .finite negative (0x10000000000000 + fraction) (field - 1075)

theorem finite_congr {sg : Sign} {s s' : Nat} {e e' : Int} (hs : s = s') (he : e = e')
    (h : 0 < s) (h' : 0 < s') :
    UnpackedFloat.finite sg s e h = UnpackedFloat.finite sg s' e' h' := by
  subst hs he
  rfl

section Fields

variable (negative : Bool) (field : BitVec 11) (fraction : BitVec 52)

theorem toNat_packComponents :
    (packComponents .binary64 (sign negative) field fraction).toNat =
      negative.toNat * 0x8000000000000000 + field.toNat * 0x10000000000000 + fraction.toNat := by
  rw [packComponents, BitVec.toNat_append, ← Nat.shiftLeft_add_eq_or_of_lt (BitVec.isLt _),
    BitVec.toNat_append, ← Nat.shiftLeft_add_eq_or_of_lt (BitVec.isLt _), Nat.shiftLeft_eq,
    Nat.shiftLeft_eq, Nat.add_mul, Nat.mul_assoc, ← Nat.pow_add]
  cases negative <;> rfl

theorem unpack_packComponents :
    UnpackedFloat.unpack .binary64 (packComponents .binary64 (sign negative) field fraction) =
      (Exact.ofFields negative field.toNat fraction.toNat).unpacked := by
  have hfull : field = -1#11 ↔ field.toNat = 0x7FF := BitVec.toNat_inj.symm
  have hnone : field = 0#11 ↔ field.toNat = 0 := BitVec.toNat_inj.symm
  have hrest : fraction = 0#52 ↔ fraction.toNat = 0 := BitVec.toNat_inj.symm
  have hleading : (1#1 ++ fraction).toNat = 0x10000000000000 + fraction.toNat := by
    rw [BitVec.toNat_append, ← Nat.shiftLeft_add_eq_or_of_lt (BitVec.isLt _)]
    rfl
  unfold UnpackedFloat.unpack Exact.ofFields
  simp only [unpackExponent_packComponents, unpackMantissa_packComponents,
    unpackSign_packComponents, Sign.ofBitVec_toBitVec]
  by_cases hf : field.toNat = 0x7FF
  · rw [if_pos (hfull.2 hf), if_pos hf]
    by_cases hr : fraction.toNat = 0
    · rw [if_pos (hrest.2 hr), if_pos hr]
      rfl
    · rw [if_neg (hrest.not.2 hr), if_neg hr]
      rfl
  · rw [if_neg (hfull.not.2 hf), if_neg hf]
    by_cases hz : field.toNat = 0
    · rw [if_pos (hnone.2 hz), if_pos hz]
      refine dite_congr (propext hrest) (fun _ => rfl) fun _ => finite_congr rfl ?_ _ _
      rw [hz]
      rfl
    · rw [if_neg (hnone.not.2 hz), if_neg hz, Exact.unpacked, dif_neg (by omega)]
      exact finite_congr hleading rfl _ _

end Fields

theorem exists_fields (b : BitVec Format.binary64.numBits) :
    ∃ (negative : Bool) (field : BitVec 11) (fraction : BitVec 52),
      b = packComponents .binary64 (sign negative) field fraction := by
  obtain ⟨negative, hsign⟩ := exists_sign (Sign.ofBitVec (unpackSign b))
  refine ⟨negative, unpackExponent b, unpackMantissa b, ?_⟩
  rw [← hsign, packComponents_unpackSign_unpackExponent_unpackMantissa]

theorem exact_of_fields {x : Float} {negative : Bool} {field : BitVec 11} {fraction : BitVec 52}
    (h : x.toModel.toBits.toBitVec = packComponents .binary64 (sign negative) field fraction) :
    exact x = .ofFields negative field.toNat fraction.toNat := by
  have hbits : x.toBits.toNat = negative.toNat * 0x8000000000000000 +
      field.toNat * 0x10000000000000 + fraction.toNat :=
    (congrArg BitVec.toNat h).trans (toNat_packComponents negative field fraction)
  have hfield : field.toNat < 0x800 := field.isLt
  have hfraction : fraction.toNat < 0x10000000000000 := fraction.isLt
  have hdiv : x.toBits.toNat / 0x10000000000000 % 0x800 = field.toNat := by omega
  have hmod : x.toBits.toNat % 0x10000000000000 = fraction.toNat := by omega
  have hsign : decide (0x8000000000000000 ≤ x.toBits.toNat) = negative := by
    cases negative with
    | false => exact decide_eq_false (by rw [Bool.toNat_false] at hbits; omega)
    | true => exact decide_eq_true (by rw [Bool.toNat_true] at hbits; omega)
  unfold exact
  dsimp only
  rw [hdiv, hmod, hsign]
  rfl

theorem unpack_eq (x : Float) : x.toModel.unpack = (exact x).unpacked := by
  obtain ⟨negative, field, fraction, h⟩ := exists_fields x.toModel.toBits.toBitVec
  rw [exact_of_fields h, Float.Model.unpack, h, unpack_packComponents]

/-! Packing. -/

/-- How often the smallest number above zero goes into `s * 2 ^ e`. -/
def magnitude (s : Nat) (e : Int) : Nat :=
  s * 2 ^ (e + 1074).toNat

/-- A significand and an exponent as they are kept. The leading digit comes first unless the
exponent is the least. -/
structure Canonical (s : Nat) (e : Int) : Prop where
  pos : 0 < s
  lt : s < 0x20000000000000
  le_exponent : -1074 ≤ e
  leading : 0x10000000000000 ≤ s ∨ e = -1074

theorem log2_succ_eq_iff {s : Nat} (hpos : 0 < s) (hlt : s < 0x20000000000000) :
    s.log2 + 1 = 53 ↔ 0x10000000000000 ≤ s := by
  have h : 52 ≤ s.log2 ↔ 2 ^ 52 ≤ s := Nat.le_log2 hpos.ne'
  have h' : s.log2 < 53 ↔ s < 2 ^ 53 := Nat.log2_lt hpos.ne'
  omega

/-- The exponent field is full for what is too large. -/
theorem pack_eq {s : Nat} {e : Int} (h : Canonical s e) (sg : Sign) :
    UnpackedFloat.pack .binary64 (.finite sg s e h.pos) =
      if 971 < e then packComponents .binary64 sg 0x7FF#11 0#52
      else if 0x10000000000000 ≤ s then
        packComponents .binary64 sg (BitVec.ofNat 11 (e + 1075).toNat) (BitVec.ofNat 52 s)
      else packComponents .binary64 sg 0#11 (BitVec.ofNat 52 s) := by
  have hle := h.le_exponent
  have hbias : e + (1023 : Nat) + (52 : Nat) = e + 1075 := by omega
  unfold UnpackedFloat.pack
  refine if_congr ?_ rfl (if_congr (log2_succ_eq_iff h.pos h.lt) ?_ rfl)
  · change 2 ^ 11 ≤ (e + (1023 : Nat) + (52 : Nat)).toNat + 1 ↔ _
    omega
  · exact congrArg (fun n : Int => packComponents .binary64 sg (BitVec.ofNat 11 n.toNat) _) hbias

theorem unpack_pack {s : Nat} {e : Int} (h : Canonical s e) (sg : Sign) :
    (Float.Model.pack (.finite sg s e h.pos)).unpack =
      if 971 < e then .infinity sg else .finite sg s e h.pos := by
  obtain ⟨negative, rfl⟩ := exists_sign sg
  have hpos := h.pos
  have hlt := h.lt
  have hle := h.le_exponent
  have hleading := h.leading
  change UnpackedFloat.unpack .binary64 (UnpackedFloat.pack .binary64 _) = _
  rw [pack_eq h]
  split
  · exact unpack_packComponents negative _ _
  · split
    · case isFalse.isTrue hsmall hnormal =>
      have hfield : (BitVec.ofNat 11 (e + 1075).toNat).toNat = (e + 1075).toNat :=
        Nat.mod_eq_of_lt (by omega)
      have hfraction : (BitVec.ofNat 52 s).toNat = s - 0x10000000000000 := by
        change s % 0x10000000000000 = _
        omega
      rw [unpack_packComponents, hfield, hfraction, Exact.ofFields, if_neg (by omega),
        if_neg (by omega), Exact.unpacked, dif_neg (by omega)]
      exact finite_congr (by omega) (by omega) _ _
    · case isFalse.isFalse hsmall hnormal =>
      have hfraction : (BitVec.ofNat 52 s).toNat = s := Nat.mod_eq_of_lt (by omega)
      rw [unpack_packComponents, hfraction]
      change (Exact.finite _ _ _).unpacked = _
      rw [Exact.unpacked, dif_neg (by omega)]
      exact finite_congr rfl (by omega) _ _

/-! Rounding. -/

/-- Nothing is lost of what the shift leaves off when it is zero. -/
theorem shift_exact (s k : Nat) :
    (⟨s * 2 ^ k, false, false⟩ : ExtendedMantissa) >>> k = ⟨s, false, false⟩ := by
  induction k generalizing s with
  | zero =>
    rw [Nat.pow_zero, Nat.mul_one]
    rfl
  | succ k ih =>
    have hstep : (⟨s * 2 ^ (k + 1), false, false⟩ : ExtendedMantissa) >>> (k + 1) =
        ((⟨s * 2 * 2 ^ k, false, false⟩ : ExtendedMantissa) >>> k).shiftRightOne := by
      rw [Nat.pow_succ, Nat.mul_comm (2 ^ k), ← Nat.mul_assoc]
      rfl
    rw [hstep, ih]
    simp [ExtendedMantissa.shiftRightOne]

theorem mantissa_shift (em : ExtendedMantissa) (k : Nat) :
    (em >>> k).mantissa = em.mantissa / 2 ^ k := by
  induction k with
  | zero => exact (Nat.div_one _).symm
  | succ k ih =>
    have hstep : (em >>> (k + 1)).mantissa = (em >>> k).mantissa / 2 := rfl
    rw [hstep, ih, Nat.div_div_eq_div_mul, Nat.pow_succ]

theorem roundedMantissa_bounds (em : ExtendedMantissa) :
    em.mantissa ≤ em.roundedMantissa ∧ em.roundedMantissa ≤ em.mantissa + 1 := by
  obtain ⟨s, round, sticky⟩ := em
  cases round <;> cases sticky <;>
    simp [ExtendedMantissa.roundedMantissa, ExtendedMantissa.accuracy, Accuracy.roundToNearestEven]
  omega

theorem targetExponent_eq (s : Nat) (e : Int) :
    Format.binary64.targetExponent (totalExponent s e) = max (s.log2 + e - 52) (-1074) := by
  unfold Format.targetExponent totalExponent
  change max ((s.log2 : Int) + 1 + e - (53 : Nat)) (-1074) = _
  congr 1
  omega

theorem log2_mul_two_pow {s : Nat} (hpos : 0 < s) (k : Nat) : (s * 2 ^ k).log2 = s.log2 + k := by
  rw [Nat.log2_eq_iff (Nat.mul_pos hpos (Nat.two_pow_pos k)).ne', Nat.pow_add, Nat.add_right_comm,
    Nat.pow_add]
  exact ⟨Nat.mul_le_mul_right _ (Nat.log2_self_le hpos.ne'),
    Nat.mul_lt_mul_of_pos_right Nat.lt_log2_self (Nat.two_pow_pos k)⟩

/-- A significand that is rounded up to the next power of two takes one place more than there is. -/
theorem carry {s : Nat} {e : Int} (hpos : 0 < s) (hle : s ≤ 0x20000000000000) (he : -1074 ≤ e) :
    shiftToTargetExponent .binary64 s e .exact =
      if s = 0x20000000000000 then (⟨0x10000000000000, false, false⟩, e + 1)
      else (⟨s, false, false⟩, e) := by
  unfold shiftToTargetExponent shiftToExponent
  rw [targetExponent_eq]
  dsimp only [ExtendedMantissa.ofMantissaAndAccuracy]
  split
  · case isTrue h =>
    subst h
    have hlog : (0x20000000000000 : Nat).log2 = 53 := rfl
    have hk : (max (((0x20000000000000 : Nat).log2 : Int) + e - 52) (-1074) - e).toNat = 1 := by
      rw [hlog]
      omega
    rw [hk]
    rfl
  · case isFalse h =>
    have hlog : s.log2 < 53 := (Nat.log2_lt hpos.ne').2 (lt_of_le_of_ne hle h)
    have hk : (max ((s.log2 : Int) + e - 52) (-1074) - e).toNat = 0 := by omega
    rw [hk]
    exact Prod.ext rfl (add_zero e)

theorem div_two_pow_bounds {s j : Nat} (hlog : s.log2 = 52 + j) (hpos : 0 < s) :
    0x10000000000000 ≤ s / 2 ^ j ∧ s / 2 ^ j < 0x20000000000000 := by
  obtain ⟨hle, hlt⟩ := (Nat.log2_eq_iff hpos.ne').1 hlog
  rw [Nat.le_div_iff_mul_le (Nat.two_pow_pos j), Nat.div_lt_iff_lt_mul (Nat.two_pow_pos j)]
  rw [Nat.pow_add] at hle
  rw [Nat.add_right_comm, Nat.pow_add] at hlt
  exact ⟨hle, hlt⟩

/-- A sum of units that is a significand at some place. -/
def Fits (n : Nat) : Prop :=
  ∃ s k, s < 0x20000000000000 ∧ k ≤ 2045 ∧ n = s * 2 ^ k

theorem dvd_of_fits {s e j n k : Nat} (hs : 2 ^ (52 + j) ≤ s) (hn : n < 0x20000000000000)
    (h : s * 2 ^ e = n * 2 ^ k) : 2 ^ j ∣ s := by
  have hle : j + e ≤ k := by
    have hlt : 2 ^ (52 + j + e) < 2 ^ (53 + k) := calc
      2 ^ (52 + j + e) = 2 ^ (52 + j) * 2 ^ e := Nat.pow_add ..
      _ ≤ s * 2 ^ e := Nat.mul_le_mul_right _ hs
      _ = n * 2 ^ k := h
      _ < 2 ^ 53 * 2 ^ k := Nat.mul_lt_mul_of_pos_right hn (Nat.two_pow_pos k)
      _ = 2 ^ (53 + k) := (Nat.pow_add ..).symm
    have := (Nat.pow_lt_pow_iff_right (by decide : 1 < 2)).1 hlt
    omega
  obtain ⟨d, rfl⟩ := Nat.exists_eq_add_of_le hle
  refine ⟨n * 2 ^ d, Nat.eq_of_mul_eq_mul_right (Nat.two_pow_pos e) (h.trans ?_)⟩
  rw [Nat.pow_add, Nat.pow_add]
  ring

theorem magnitude_shift (s k : Nat) {e : Int} (he : -1074 ≤ e) :
    magnitude (s * 2 ^ k) e = magnitude s (e + k) := by
  have hsum : (e + k + 1074).toNat = k + (e + 1074).toNat := by omega
  rw [magnitude, magnitude, hsum, Nat.pow_add, Nat.mul_assoc]

section Rounding

variable {s j : Nat} {e : Int} (hpos : 0 < s) (he : -1074 ≤ e)
  (hj : max (s.log2 + e - 52) (-1074) = e + j)
include hpos he hj

/-- The digits that are kept are as many as there is room for, unless the exponent is the least. -/
theorem kept_bounds :
    0 < s / 2 ^ j ∧ s / 2 ^ j < 0x20000000000000 ∧
      (0x10000000000000 ≤ s / 2 ^ j ∨ e + j = -1074) := by
  by_cases hleast : s.log2 + e - 52 ≤ -1074
  · have hzero : j = 0 := by omega
    have hlog : s.log2 < 53 := by omega
    subst hzero
    rw [Nat.pow_zero, Nat.div_one]
    exact ⟨hpos, (Nat.log2_lt hpos.ne').1 hlog, .inr (by omega)⟩
  · obtain ⟨hle, hlt⟩ := div_two_pow_bounds (show s.log2 = 52 + j by omega) hpos
    exact ⟨by omega, hlt, .inl hle⟩

/-- What fits has no digits behind those that are kept. -/
theorem dvd_of_fits_magnitude (h : Fits (magnitude s e)) : 2 ^ j ∣ s := by
  obtain ⟨n, k, hn, -, hfits⟩ := h
  by_cases hzero : j = 0
  · rw [hzero]
    exact one_dvd s
  · have hlog : 52 + j ≤ s.log2 := by omega
    exact dvd_of_fits ((Nat.le_log2 hpos.ne').1 hlog) hn hfits

/-- What is rounded gets its leading digit in front, and stays what it is if that fits. -/
theorem roundWithAccuracy_canonical (sg : Sign) :
    ∃ s' e', ∃ h : Canonical s' e',
      roundWithAccuracy .binary64 sg s e .exact = .finite sg s' e' h.pos ∧
        (Fits (magnitude s e) → magnitude s' e' = magnitude s e) := by
  obtain ⟨em, hem⟩ : ∃ em, em = (⟨s, false, false⟩ : ExtendedMantissa) >>> j := ⟨_, rfl⟩
  have hshift : shiftToTargetExponent .binary64 s e .exact = (em, e + j) := by
    unfold shiftToTargetExponent shiftToExponent
    rw [targetExponent_eq, hj]
    dsimp only
    rw [add_sub_cancel_left, Int.toNat_natCast, hem]
    rfl
  have hkept : em.mantissa = s / 2 ^ j := by rw [hem, mantissa_shift]
  obtain ⟨hkpos, hklt, hkge⟩ := kept_bounds hpos he hj
  obtain ⟨hle, hge⟩ := roundedMantissa_bounds em
  have hcarry := carry (s := em.roundedMantissa) (e := e + j) (by omega) (by omega) (by omega)
  have hexact : Fits (magnitude s e) → em.roundedMantissa = em.mantissa ∧
      magnitude em.mantissa (e + j) = magnitude s e := by
    intro hfits
    obtain ⟨q, rfl⟩ := dvd_of_fits_magnitude hpos he hj hfits
    rw [Nat.mul_comm (2 ^ j) q] at hem ⊢
    rw [shift_exact] at hem
    rw [hem]
    exact ⟨rfl, (magnitude_shift q j he).symm⟩
  unfold roundWithAccuracy
  rw [hshift]
  dsimp only
  rw [hcarry]
  split
  · case isTrue h =>
    refine ⟨0x10000000000000, e + j + 1, ⟨by omega, by omega, by omega, .inl le_rfl⟩, rfl, ?_⟩
    intro hfits
    obtain ⟨hrounded, -⟩ := hexact hfits
    omega
  · case isFalse h =>
    refine ⟨em.roundedMantissa, e + j, ⟨by omega, by omega, by omega, by omega⟩, ?_, ?_⟩
    · exact dif_neg (show ¬ em.roundedMantissa = 0 by omega)
    · intro hfits
      obtain ⟨hrounded, hsame⟩ := hexact hfits
      rw [hrounded, hsame]

end Rounding

theorem round_canonical (sg : Sign) {s : Nat} {e : Int} (hpos : 0 < s) (he : -1074 ≤ e) :
    ∃ s' e', ∃ h : Canonical s' e',
      UnpackedFloat.round .binary64 sg s e = .finite sg s' e' h.pos ∧
        (Fits (magnitude s e) → magnitude s' e' = magnitude s e) := by
  obtain ⟨t, ht⟩ : ∃ t : Int, t = max (s.log2 + e - 52) (-1074) := ⟨_, rfl⟩
  obtain ⟨k, hk⟩ : ∃ k : Nat, k = (e - t).toNat := ⟨_, rfl⟩
  obtain ⟨j, hj⟩ : ∃ j : Nat, j = (t - (e - k)).toNat := ⟨_, rfl⟩
  have he' : -1074 ≤ e - k := by omega
  have hlog : (s * 2 ^ k).log2 = s.log2 + k := log2_mul_two_pow hpos k
  have hmagnitude : magnitude (s * 2 ^ k) (e - k) = magnitude s e := by
    rw [magnitude_shift s k he', sub_add_cancel]
  have hround : UnpackedFloat.round .binary64 sg s e =
      roundWithAccuracy .binary64 sg (s * 2 ^ k) (e - k) .exact := by
    unfold UnpackedFloat.round decreaseExponent
    rw [targetExponent_eq, ← ht]
    dsimp only
    rw [← hk, Nat.shiftLeft_eq]
  rw [hround, ← hmagnitude]
  refine roundWithAccuracy_canonical (j := j) (Nat.mul_pos hpos (Nat.two_pow_pos k)) he' ?_ sg
  rw [hlog]
  omega

end Offside.Number
