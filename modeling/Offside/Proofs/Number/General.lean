import Offside.Proofs.Number.Rounding
import Offside.Proofs.Number.Spelling

/-!
The texts that programs print for numbers. A text denotes its number rounded to six significant
digits, and nothing can be left out of it.
-/

namespace Offside.Number

/-! Digits with a point. -/

/-- Digits behind a point, and no point if there are none. -/
def behindPoint (fraction : List Char) : List Char :=
  if fraction = [] then [] else '.' :: fraction

theorem point_notMem {digits : List Char} (h : ∀ c ∈ digits, c.isDigit) : '.' ∉ digits :=
  fun hmem => absurd (h _ hmem) (by decide)

theorem isDigit_of_mem_toDigits {n : Nat} {c : Char} (h : c ∈ Nat.toDigits 10 n) : c.isDigit :=
  Nat.isDigit_of_mem_toDigits (by decide) (by decide) h

/-- The digits behind the point, of which there are `places`. -/
def places (count n : Nat) : List Char :=
  Digits.zeros (count - (Nat.toDigits 10 (n % 10 ^ count)).length) ++
    Nat.toDigits 10 (n % 10 ^ count)

theorem isDigit_of_mem_places {count n : Nat} {c : Char} (h : c ∈ places count n) : c.isDigit := by
  rcases List.mem_append.1 h with h | h
  · exact isDigit_of_mem_zeros h
  · exact isDigit_of_mem_toDigits h

theorem length_places {count : Nat} (hc : count ≠ 0) (n : Nat) : (places count n).length = count := by
  have hlt : n % 10 ^ count < 10 ^ count := Nat.mod_lt _ (Nat.pow_pos (by decide))
  have hle := (Nat.length_toDigits_le_iff (b := 10) (by decide) (Nat.pos_of_ne_zero hc)).2 hlt
  rw [places, List.length_append, Digits.zeros, List.length_replicate]
  omega

theorem pointed_eq {count : Nat} (hc : count ≠ 0) (n : Nat) :
    pointed count n = Nat.toDigits 10 (n / 10 ^ count) ++ '.' :: places count n := by
  unfold pointed
  rw [if_neg hc]
  rfl

theorem ofDigitChars_places {count : Nat} (hc : count ≠ 0) (n : Nat) :
    Nat.ofDigitChars 10 (Nat.toDigits 10 (n / 10 ^ count) ++ places count n) 0 = n := by
  rw [Nat.ofDigitChars_append, Nat.ofDigitChars_eq_ofDigitChars_zero, length_places hc, places,
    ofDigitChars_zeros, Nat.ofDigitChars_ten_toDigits, Nat.ofDigitChars_ten_toDigits]
  exact Nat.div_add_mod n (10 ^ count)

/-- Every text has a longest end of zeros. -/
theorem exists_zeros (s : List Char) :
    ∃ kept k, s = kept ++ List.replicate k '0' ∧ kept.getLast? ≠ some '0' := by
  induction s using List.reverseRecOn with
  | nil => exact ⟨[], 0, rfl, nofun⟩
  | append_singleton s c ih =>
    by_cases hc : c = '0'
    · obtain ⟨kept, k, rfl, hlast⟩ := ih
      refine ⟨kept, k + 1, ?_, hlast⟩
      rw [hc, List.append_assoc, ← List.replicate_succ']
    · refine ⟨s ++ [c], 0, (List.append_nil _).symm, ?_⟩
      rw [List.getLast?_concat]
      exact fun h => hc (Option.some.inj h)

theorem trimZeros_integer {whole : List Char} (hwhole : ∀ c ∈ whole, c.isDigit) :
    trimZeros whole = whole :=
  if_neg (point_notMem hwhole)

/-- Only zeros behind the point are left out, and the point if nothing else is there. -/
theorem trimZeros_pointed {whole kept : List Char} (hne : whole ≠ []) (k : Nat)
    (hwhole : ∀ c ∈ whole, c.isDigit) (hkept : ∀ c ∈ kept, c.isDigit)
    (hlast : kept.getLast? ≠ some '0') :
    trimZeros (whole ++ '.' :: (kept ++ List.replicate k '0')) = whole ++ behindPoint kept := by
  have hreverse : (whole ++ '.' :: (kept ++ List.replicate k '0')).reverse =
      List.replicate k '0' ++ (kept.reverse ++ '.' :: whole.reverse) := by
    simp
  unfold trimZeros
  rw [if_pos (by simp), hreverse, List.dropWhile_append_of_pos (by simp)]
  rcases List.eq_nil_or_concat kept with rfl | ⟨start, c, rfl⟩
  · obtain ⟨start, c, rfl⟩ := (List.eq_nil_or_concat whole).resolve_left hne
    have hc : c ≠ '.' := by
      rintro rfl
      exact point_notMem hwhole (by simp)
    simp [behindPoint, hc]
  · have hc : c ≠ '.' := by
      rintro rfl
      exact point_notMem hkept (by simp)
    have hzero : c ≠ '0' := by
      rintro rfl
      simp at hlast
    simp [behindPoint, hc, hzero]

/-- Of the digits with a point, those in front of it stay, and the number that the others belong to
stays the same. -/
theorem exists_trimmed (count n : Nat) : ∃ fraction k,
    trimZeros (pointed count n) = Nat.toDigits 10 (n / 10 ^ count) ++ behindPoint fraction ∧
      (∀ c ∈ fraction, c.isDigit) ∧ fraction.getLast? ≠ some '0' ∧ fraction.length + k = count ∧
      Nat.ofDigitChars 10 (Nat.toDigits 10 (n / 10 ^ count) ++ fraction) 0 * 10 ^ k = n := by
  by_cases hc : count = 0
  · subst hc
    refine ⟨[], 0, ?_, nofun, nofun, rfl, ?_⟩
    · rw [pointed, if_pos rfl, trimZeros_integer fun c => isDigit_of_mem_toDigits]
      exact (List.append_nil _).symm
    · rw [List.append_nil, Nat.ofDigitChars_ten_toDigits, Nat.pow_zero, Nat.mul_one, Nat.div_one]
  · obtain ⟨kept, k, hsplit, hlast⟩ := exists_zeros (places count n)
    have hkept : ∀ c ∈ kept, c.isDigit := fun c hmem =>
      isDigit_of_mem_places (hsplit ▸ List.mem_append_left _ hmem)
    refine ⟨kept, k, ?_, hkept, hlast, ?_, ?_⟩
    · rw [pointed_eq hc, hsplit]
      exact trimZeros_pointed Nat.toDigits_ne_nil k (fun c => isDigit_of_mem_toDigits) hkept hlast
    · rw [← length_places hc n, hsplit, List.length_append, List.length_replicate]
    · have hdigits := ofDigitChars_places hc n
      rwa [hsplit, ← List.append_assoc, Nat.ofDigitChars_append, Nat.ofDigitChars_replicate_zero,
        Nat.mul_comm] at hdigits

/-- Below a power of ten there are no more digits than this power has zeros. -/
theorem length_significant_le {digits : List Char} (hdigits : ∀ c ∈ digits, c.isDigit) {m : Nat}
    (h : Nat.ofDigitChars 10 digits 0 < 10 ^ m) : (digits.dropWhile (· = '0')).length ≤ m := by
  induction digits with
  | nil => exact Nat.zero_le m
  | cons c digits ih =>
    rw [Nat.ofDigitChars_cons] at h
    by_cases hc : c = '0'
    · subst hc
      exact ih (fun d hd => hdigits d (List.mem_cons_of_mem _ hd)) h
    · have hpos : 0 < c.toNat - '0'.toNat := by
        have hdigit : '0'.toNat ≤ c.toNat := by
          have hc := hdigits c List.mem_cons_self
          simp only [Char.isDigit, Bool.and_eq_true, decide_eq_true_eq] at hc
          exact hc.1
        have hne : c.toNat ≠ '0'.toNat := fun heq => hc (Char.toNat_inj.1 heq)
        omega
      rw [Nat.mul_zero, Nat.zero_add, Nat.ofDigitChars_eq_ofDigitChars_zero] at h
      have hle : 10 ^ digits.length < 10 ^ m :=
        Nat.lt_of_le_of_lt (Nat.le_mul_of_pos_right _ hpos) (by omega)
      rw [List.dropWhile_cons_of_neg (by simpa using hc)]
      exact (Nat.pow_lt_pow_iff_right (by decide)).1 hle

/-- What stands in the text of a number: a sign, digits, digits behind a point, and the power of ten
with its sign, if it is written out. -/
structure Printed where
  negative : Bool
  whole : List Char
  fraction : List Char
  power : Option (Bool × List Char)
  whole_ne_nil : whole ≠ []
  isDigit_whole : ∀ c ∈ whole, c.isDigit
  isDigit_fraction : ∀ c ∈ fraction, c.isDigit
  isDigit_power : ∀ p ∈ power, ∀ c ∈ p.2, c.isDigit

namespace Printed

variable (t : Printed)

def text : List Char :=
  (if t.negative then ['-'] else []) ++ t.whole ++ behindPoint t.fraction ++
    match t.power with
    | none => []
    | some (negative, digits) => 'e' :: (if negative then '-' else '+') :: digits

def exponent : Int :=
  match t.power with
  | none => 0
  | some (negative, digits) =>
    if negative then -(Nat.ofDigitChars 10 digits 0) else Nat.ofDigitChars 10 digits 0

/-- The value that the text denotes. -/
def value : ℚ :=
  (if t.negative then -1 else 1) *
    (Nat.ofDigitChars 10 (t.whole ++ t.fraction) 0 * (10 : ℚ) ^ (t.exponent - t.fraction.length))

/-- The digits from the first one that is no zero. -/
def significant : List Char :=
  (t.whole ++ t.fraction).dropWhile (· = '0')

end Printed

/-- The power of ten as it is written out. -/
def powerText (e : Int) : Bool × List Char :=
  (e < 0, Digits.zeros (2 - (Nat.toDigits 10 e.natAbs).length) ++ Nat.toDigits 10 e.natAbs)

theorem isDigit_powerText (e : Int) : ∀ c ∈ (powerText e).2, c.isDigit := by
  intro c hc
  rcases List.mem_append.1 hc with hc | hc
  · exact isDigit_of_mem_zeros hc
  · exact isDigit_of_mem_toDigits hc

theorem length_powerText (e : Int) : 2 ≤ (powerText e).2.length := by
  rw [powerText, List.length_append, Digits.zeros, List.length_replicate]
  omega

theorem exponent_powerText (e : Int) :
    (if (powerText e).1 then -(Nat.ofDigitChars 10 (powerText e).2 0 : Int)
      else Nat.ofDigitChars 10 (powerText e).2 0) = e := by
  rw [powerText, ofDigitChars_zeros, Nat.ofDigitChars_ten_toDigits]
  simp only [decide_eq_true_eq]
  split <;> omega

theorem signedExponent_eq (e : Int) :
    signedExponent e = (if (powerText e).1 then '-' else '+') :: (powerText e).2 := by
  simp [signedExponent, powerText]

/-- Digits with a point, without the zeros at the end, and what is put around them. -/
theorem exists_printed (negative : Bool) {count n m : Nat} (hn : n < 10 ^ m)
    (power : Option Int) : ∃ t : Printed,
    t.negative = negative ∧ t.power = power.map powerText ∧ t.exponent = power.getD 0 ∧
      trimZeros (pointed count n) = t.whole ++ behindPoint t.fraction ∧
      t.value = (if negative then -1 else 1) * (n * (10 : ℚ) ^ (power.getD 0 - count)) ∧
      t.significant.length ≤ m ∧ t.fraction.getLast? ≠ some '0' ∧
      t.whole = Nat.toDigits 10 (n / 10 ^ count) := by
  obtain ⟨fraction, k, htrim, hfraction, hlast, hcount, hvalue⟩ := exists_trimmed count n
  have hwhole : ∀ c ∈ Nat.toDigits 10 (n / 10 ^ count), c.isDigit :=
    fun c => isDigit_of_mem_toDigits
  have hpower : ∀ p ∈ power.map powerText, ∀ c ∈ p.2, c.isDigit := by
    rintro p hp
    obtain ⟨e, -, rfl⟩ := Option.map_eq_some_iff.1 hp
    exact isDigit_powerText e
  let t : Printed := ⟨negative, _, fraction, power.map powerText, Nat.toDigits_ne_nil, hwhole,
    hfraction, hpower⟩
  have hexponent : t.exponent = power.getD 0 := by
    cases power with
    | none => rfl
    | some e => exact exponent_powerText e
  refine ⟨t, rfl, rfl, hexponent, htrim, ?_, ?_, hlast, rfl⟩
  · have hten : (10 : ℚ) ^ (power.getD 0 - fraction.length) =
        10 ^ k * (10 : ℚ) ^ (power.getD 0 - count) := by
      rw [← hcount, ← zpow_natCast, ← zpow_add₀ (by norm_num)]
      push_cast
      congr 1
      ring
    have hvalue' : (Nat.ofDigitChars 10 (t.whole ++ t.fraction) 0 : ℚ) * 10 ^ k = n := by
      exact_mod_cast hvalue
    rw [Printed.value, hexponent, hten, ← mul_assoc (Nat.ofDigitChars _ _ _ : ℚ), hvalue']
  · apply length_significant_le
    · exact List.forall_mem_append.2 ⟨hwhole, hfraction⟩
    · exact Nat.lt_of_le_of_lt (Nat.le_mul_of_pos_right _ (Nat.pow_pos (by decide))) (hvalue ▸ hn)

theorem floor_places (count n : Nat) : ⌊n * (10 : ℚ) ^ (-(count : Int))⌋₊ = n / 10 ^ count := by
  rw [zpow_neg, zpow_natCast, ← div_eq_mul_inv]
  exact_mod_cast Nat.floor_div_eq_div (K := ℚ) n (10 ^ count)

theorem exact_negative {x : Float} {negative : Bool} {s : Nat} {e : Int}
    (h : exact x = .finite negative s e) : negative ↔ 0x8000000000000000 ≤ x.toBits.toNat := by
  unfold exact at h
  dsimp only at h
  split_ifs at h
  · cases h
    exact decide_eq_true_iff
  · cases h
    exact decide_eq_true_iff

/-- Whichever form is chosen, the digits are those of the rounded value. -/
theorem general_eq {x : Float} {negative : Bool} {s : Nat} {e : Int}
    (h : exact x = .finite negative s e) : ∃ (n places : Nat) (power : Option Int), n < 10 ^ 6 ∧
    general x = withSign negative
      (trimZeros (pointed places n) ++ power.elim [] ('e' :: signedExponent ·)) ∧
    rounded 6 (s * (2 : ℚ) ^ e) = n * (10 : ℚ) ^ (power.getD 0 - places) ∧
    (power.isSome ↔ Int.log 10 (rounded 6 (s * (2 : ℚ) ^ e)) < -4 ∨
      6 ≤ Int.log 10 (rounded 6 (s * (2 : ℚ) ^ e))) ∧
    ∀ p ∈ power, p = Int.log 10 (rounded 6 (s * (2 : ℚ) ^ e)) := by
  have hvalue : value (scale 2 s 1 e) = s * (2 : ℚ) ^ e := by
    rw [value_scale Nat.two_pos]
    simp
  obtain ⟨n, hn, hr, hscientific, hfixed⟩ :=
    exists_digits 5 (scale 2 s 1 e).1 (scale_pos Nat.two_pos s Nat.one_pos e)
  rw [Prod.mk.eta, hvalue] at hr hscientific hfixed
  generalize rounded (5 + 1) (s * (2 : ℚ) ^ e) = r at hr hscientific hfixed
  unfold general
  rw [h]
  dsimp only
  rw [hscientific]
  by_cases hpower : Int.log 10 r < -4 ∨ 6 ≤ Int.log 10 r
  · rw [if_pos hpower]
    refine ⟨n, 5, some (Int.log 10 r), hn, rfl, hr, iff_of_true rfl hpower, ?_⟩
    rintro p ⟨⟩
    rfl
  · obtain ⟨places, hplaces⟩ : ∃ places : Nat, (places : Int) = 5 - Int.log 10 r :=
      ⟨(5 - Int.log 10 r).toNat, by omega⟩
    rw [if_neg hpower, ← hplaces, Int.toNat_natCast, hfixed places hplaces]
    refine ⟨n, places, none, hn, by rw [Option.elim_none, List.append_nil], ?_,
      iff_of_false nofun hpower, nofun⟩
    rw [hr, Option.getD_none, hplaces]
    congr 2
    push_cast
    ring

/-- The text of a number denotes it rounded to six significant digits, a half to the even digit. -/
theorem general_rounds {x : Float} {negative : Bool} {s : Nat} {e : Int}
    (h : exact x = .finite negative s e) :
    let r := rounded 6 (s * (2 : ℚ) ^ e)
    ∃ t : Printed, (general x).toList = t.text ∧
      t.value = (if negative then -1 else 1) * r ∧
      (t.negative ↔ 0x8000000000000000 ≤ x.toBits.toNat) ∧
      t.significant.length ≤ 6 ∧
      t.fraction.getLast? ≠ some '0' ∧
      t.whole = Nat.toDigits 10 ⌊r / (10 : ℚ) ^ t.exponent⌋₊ ∧
      (t.power.isSome ↔ Int.log 10 r < -4 ∨ 6 ≤ Int.log 10 r) ∧
      ∀ p ∈ t.power, 2 ≤ p.2.length ∧ t.exponent = Int.log 10 r := by
  intro r
  obtain ⟨n, places, power, hn, hgeneral, hr, hform, hpower⟩ := general_eq h
  change r = _ at hr
  obtain ⟨t, hnegative, ht, hexponent, htrim, hvalue, hsignificant, hlast, hwhole⟩ :=
    @exists_printed negative places n 6 hn power
  refine ⟨t, ?_, hr ▸ hvalue, hnegative ▸ exact_negative h, hsignificant, hlast, ?_, ?_, ?_⟩
  · rw [hgeneral, htrim, Printed.text, hnegative, ht, withSign, String.toList_ofList]
    cases power with
    | none => cases negative <;> simp
    | some p => cases negative <;> simp [signedExponent_eq]
  · rw [hwhole, hexponent, hr, mul_div_assoc, ← zpow_sub₀ (by norm_num), sub_sub_cancel_left,
      floor_places]
  · rw [ht, Option.isSome_map]
    exact hform
  · rintro p hp
    obtain ⟨q, hq, rfl⟩ := Option.map_eq_some_iff.1 (ht ▸ hp)
    refine ⟨length_powerText q, ?_⟩
    rw [hexponent, hq]
    exact hpower q hq

/-- The number `-999999.5` has six digits in front of the point, and is rounded up to seven. -/
theorem general_rounds_to_next_power :
    ∃ t : Printed, t.text = "-1e+06".toList ∧
      t.value = -1 * rounded 6 ((8589930297032704 : Nat) * (2 : ℚ) ^ (-33 : Int)) ∧
      t.negative ∧ t.significant.length ≤ 6 := by
  let x := Float.ofBits 0xC12E847F00000000
  have hexact : exact x = .finite true 8589930297032704 (-33) := by decide +kernel
  have hgeneral : general x = "-1e+06" := by decide +kernel
  obtain ⟨t, htext, hvalue, hnegative, hsignificant, -⟩ := general_rounds hexact
  rw [hgeneral] at htext
  exact ⟨t, htext.symm, hvalue, hnegative.2 (by decide +kernel), hsignificant⟩

end Offside.Number
