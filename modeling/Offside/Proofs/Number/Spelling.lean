import Offside.Proofs.Number.Decimal

/-!
The texts of numbers in source text: digits, with a point and more digits that may be missing.
Every such text is read as a number, and the text that a number is spelled with as this number.
-/

namespace Offside.Number

/-- The texts that the language has for numbers. -/
inductive Numeral : List Char → Prop where
  | integer {whole : List Char} (hne : whole ≠ []) (hwhole : ∀ c ∈ whole, c.isDigit) :
      Numeral whole
  | pointed {whole fraction : List Char} (hne : whole ≠ []) (hwhole : ∀ c ∈ whole, c.isDigit)
      (hfraction : ∀ c ∈ fraction, c.isDigit) : Numeral (whole ++ '.' :: fraction)

theorem Numeral.head {s : List Char} (h : Numeral s) : ∃ c r, s = c :: r ∧ c.isDigit := by
  cases h with
  | integer hne hwhole =>
    obtain ⟨c, r, rfl⟩ := List.exists_cons_of_ne_nil hne
    exact ⟨c, r, rfl, hwhole c List.mem_cons_self⟩
  | pointed hne hwhole hfraction =>
    obtain ⟨c, r, rfl⟩ := List.exists_cons_of_ne_nil hne
    exact ⟨c, _, rfl, hwhole c List.mem_cons_self⟩

theorem Numeral.isDigit_or_point {s : List Char} (h : Numeral s) {c : Char} (hc : c ∈ s) :
    c.isDigit ∨ c = '.' := by
  cases h with
  | integer hne hwhole => exact .inl (hwhole c hc)
  | pointed hne hwhole hfraction =>
    rcases List.mem_append.1 hc with hc | hc
    · exact .inl (hwhole c hc)
    · rcases List.mem_cons.1 hc with hc | hc
      · exact .inr hc
      · exact .inl (hfraction c hc)

theorem takeWhile_digits {s : List Char} (h : ∀ c ∈ s, c.isDigit) : s.takeWhile Char.isDigit = s :=
  List.takeWhile_eq_self_iff.2 h

theorem dropWhile_digits {s : List Char} (h : ∀ c ∈ s, c.isDigit) : s.dropWhile Char.isDigit = [] :=
  List.dropWhile_eq_nil_iff.2 h

theorem readDecimal_integer {whole : List Char} (hne : whole ≠ [])
    (hwhole : ∀ c ∈ whole, c.isDigit) :
    readDecimal whole = some (ofDecimal (Nat.ofDigitChars 10 whole 0) 0) := by
  unfold readDecimal
  rw [takeWhile_digits hwhole, dropWhile_digits hwhole]
  simp [hne, readExponent]

theorem readDecimal_pointed {whole fraction : List Char} (hne : whole ≠ [])
    (hwhole : ∀ c ∈ whole, c.isDigit) (hfraction : ∀ c ∈ fraction, c.isDigit) :
    readDecimal (whole ++ '.' :: fraction) =
      some (ofDecimal (Nat.ofDigitChars 10 (whole ++ fraction) 0) (-fraction.length)) := by
  have htake : (whole ++ '.' :: fraction).takeWhile Char.isDigit = whole := by
    rw [List.takeWhile_append_of_pos hwhole, List.takeWhile_cons_of_neg (by decide),
      List.append_nil]
  have hdrop : (whole ++ '.' :: fraction).dropWhile Char.isDigit = '.' :: fraction := by
    rw [List.dropWhile_append_of_pos hwhole, List.dropWhile_cons_of_neg (by decide)]
  unfold readDecimal
  rw [htake, hdrop]
  simp [hne, readExponent, takeWhile_digits hfraction, dropWhile_digits hfraction]

theorem toLower_of_isDigit {c : Char} (h : c.isDigit) : c.toLower = c := by
  simp only [Char.isDigit, Bool.and_eq_true, decide_eq_true_eq] at h
  refine dif_neg fun hupper => ?_
  exact absurd (UInt32.le_trans hupper.1 h.2) (by decide)

/-- What begins with a digit has no sign and is not the name of a value. -/
theorem read_of_isDigit {c : Char} (h : c.isDigit) (s : List Char) :
    read (c :: s) = readDecimal (c :: s) := by
  have hminus : c ≠ '-' := by rintro rfl; exact absurd h (by decide)
  have hplus : c ≠ '+' := by rintro rfl; exact absurd h (by decide)
  have hi : c ≠ 'i' := by rintro rfl; exact absurd h (by decide)
  have hn : c ≠ 'n' := by rintro rfl; exact absurd h (by decide)
  unfold read
  split
  · next heq => exact absurd (List.cons.inj heq).1 hminus
  · next heq => exact absurd (List.cons.inj heq).1 hplus
  · simp [readUnsigned, toLower_of_isDigit h, hi, hn]

theorem Numeral.read_eq_readDecimal {s : List Char} (h : Numeral s) : read s = readDecimal s := by
  obtain ⟨c, r, rfl, hc⟩ := h.head
  exact read_of_isDigit hc r

/-- Every text of a number is read, and gives no negative number. -/
theorem Numeral.read {s : List Char} (h : Numeral s) :
    ∃ x, Number.read s = some x ∧ (x = infinity ∨ ∃ n e, exact x = .finite false n e) := by
  rw [h.read_eq_readDecimal]
  cases h with
  | integer hne hwhole => exact ⟨_, readDecimal_integer hne hwhole, exact_ofDecimal _ _⟩
  | pointed hne hwhole hfraction =>
    exact ⟨_, readDecimal_pointed hne hwhole hfraction, exact_ofDecimal _ _⟩

/-! Digits with a point. -/

theorem ofDigitChars_zeros (n : Nat) (s : List Char) :
    Nat.ofDigitChars 10 (Digits.zeros n ++ s) 0 = Nat.ofDigitChars 10 s 0 := by
  rw [Digits.zeros, Nat.ofDigitChars_append, Nat.ofDigitChars_replicate_zero, Nat.mul_zero]

theorem isDigit_of_mem_zeros {n : Nat} {c : Char} (h : c ∈ Digits.zeros n) : c.isDigit := by
  rw [List.eq_of_mem_replicate h]
  rfl

/-- Digits with a point between them are read as the number they stand for. -/
theorem readDecimal_positional {d : Digits} (hne : d.digits ≠ [])
    (hdigits : ∀ c ∈ d.digits, c.isDigit) :
    Numeral d.positional ∧ readDecimal d.positional =
      some (ofDecimal (Nat.ofDigitChars 10 d.digits 0) (d.point - d.digits.length)) := by
  unfold Digits.positional
  split
  · case isTrue hsmall =>
    have hzero : ∀ c ∈ ['0'], c.isDigit := by simp
    have hfraction : ∀ c ∈ Digits.zeros (-d.point).toNat ++ d.digits, c.isDigit :=
      List.forall_mem_append.2 ⟨fun c hc => isDigit_of_mem_zeros hc, hdigits⟩
    refine ⟨.pointed (List.cons_ne_nil _ _) hzero hfraction, ?_⟩
    rw [show '0' :: '.' :: Digits.zeros (-d.point).toNat ++ d.digits =
      ['0'] ++ '.' :: (Digits.zeros (-d.point).toNat ++ d.digits) from rfl,
      readDecimal_pointed (List.cons_ne_nil _ _) hzero hfraction]
    congr 2
    · rw [Nat.ofDigitChars_append]
      exact ofDigitChars_zeros _ _
    · rw [List.length_append, Digits.zeros, List.length_replicate]
      omega
  · case isFalse hlarge =>
    dsimp only
    split
    · case isTrue hle =>
      have hwhole : ∀ c ∈ d.digits ++ Digits.zeros (d.point.toNat - d.digits.length),
          c.isDigit :=
        List.forall_mem_append.2 ⟨hdigits, fun c hc => isDigit_of_mem_zeros hc⟩
      refine ⟨.integer (List.append_ne_nil_of_left_ne_nil hne _) hwhole, ?_⟩
      rw [readDecimal_integer (List.append_ne_nil_of_left_ne_nil hne _) hwhole,
        Nat.ofDigitChars_append, Digits.zeros, Nat.ofDigitChars_replicate_zero, Nat.mul_comm,
        ofDecimal_mul_pow]
      congr 2
      omega
    · case isFalse hgt =>
      have hwhole : ∀ c ∈ d.digits.take d.point.toNat, c.isDigit :=
        fun c hc => hdigits c (List.mem_of_mem_take hc)
      have hfraction : ∀ c ∈ d.digits.drop d.point.toNat, c.isDigit :=
        fun c hc => hdigits c (List.mem_of_mem_drop hc)
      have htake : d.digits.take d.point.toNat ≠ [] := by
        intro hnil
        rcases List.take_eq_nil_iff.1 hnil with hzero | hzero
        · omega
        · exact hne hzero
      refine ⟨.pointed htake hwhole hfraction, ?_⟩
      rw [readDecimal_pointed htake hwhole hfraction, List.take_append_drop]
      congr 2
      rw [List.length_drop]
      omega

/-! The digits of a number. -/

/-- The zeros at the end of a decimal number, and the digits in front of them. -/
theorem toDigits_eq_append (n : Nat) :
    ∃ k, Nat.toDigits 10 n =
        ((Nat.toDigits 10 n).reverse.dropWhile (· = '0')).reverse ++ List.replicate k '0' ∧
      n = Nat.ofDigitChars 10 ((Nat.toDigits 10 n).reverse.dropWhile (· = '0')).reverse 0 *
        10 ^ k := by
  have hzeros : (Nat.toDigits 10 n).reverse.takeWhile (· = '0') =
      List.replicate ((Nat.toDigits 10 n).reverse.takeWhile (· = '0')).length '0' :=
    List.eq_replicate_of_mem fun c hc => by simpa using List.mem_takeWhile_imp hc
  have hsplit := List.takeWhile_append_dropWhile (p := (· = '0')) (l := (Nat.toDigits 10 n).reverse)
  rw [hzeros] at hsplit
  generalize ((Nat.toDigits 10 n).reverse.takeWhile (· = '0')).length = k at hsplit
  generalize (Nat.toDigits 10 n).reverse.dropWhile (· = '0') = rest at hsplit ⊢
  have hall : Nat.toDigits 10 n = rest.reverse ++ List.replicate k '0' := by
    rw [← List.reverse_reverse (Nat.toDigits 10 n), ← hsplit, List.reverse_append,
      List.reverse_replicate]
  refine ⟨k, hall, ?_⟩
  have hread := Nat.ofDigitChars_ten_toDigits (n := n)
  rw [hall, Nat.ofDigitChars_append, Nat.ofDigitChars_replicate_zero] at hread
  rw [Nat.mul_comm]
  exact hread.symm

theorem ofDecimal_zero (e : Int) : ofDecimal 0 e = nearest 0 1 :=
  if_pos rfl

/-- Leaving out the zeros at the end keeps the number. -/
theorem ofScaled_denotes (n : Nat) (unit : Int) :
    (Digits.ofScaled n unit).digits ≠ [] ∧ (∀ c ∈ (Digits.ofScaled n unit).digits, c.isDigit) ∧
      ofDecimal (Nat.ofDigitChars 10 (Digits.ofScaled n unit).digits 0)
        ((Digits.ofScaled n unit).point - (Digits.ofScaled n unit).digits.length) =
        ofDecimal n unit := by
  by_cases hn : n = 0
  · subst hn
    refine ⟨List.cons_ne_nil _ _, by simp [Digits.ofScaled, Digits.zero], ?_⟩
    exact (ofDecimal_zero _).trans (ofDecimal_zero _).symm
  · have hdef : Digits.ofScaled n unit =
        ⟨((Nat.toDigits 10 n).reverse.dropWhile (· = '0')).reverse,
          (Nat.toDigits 10 n).length + unit⟩ := if_neg hn
    obtain ⟨k, hall, hvalue⟩ := toDigits_eq_append n
    rw [hdef]
    dsimp only
    generalize ((Nat.toDigits 10 n).reverse.dropWhile (· = '0')).reverse = digits at hall hvalue
    refine ⟨?_, ?_, ?_⟩
    · rintro rfl
      rw [Nat.ofDigitChars_nil, Nat.zero_mul] at hvalue
      exact hn hvalue
    · intro c hc
      apply Nat.isDigit_of_mem_toDigits (b := 10) (n := n) (by decide) (by decide)
      rw [hall]
      exact List.mem_append_left _ hc
    · have hunit : ((Nat.toDigits 10 n).length + unit - digits.length : Int) = unit + k := by
        rw [hall, List.length_append, List.length_replicate]
        omega
      rw [hunit, ← ofDecimal_mul_pow, ← hvalue]

/-! The number that its spelling is read as. -/

theorem candidate_denotes {x : Float} {num den : Nat} {unit : Int} {d : Digits}
    (h : candidate x num den unit = some d) :
    ∃ n, d = Digits.ofScaled n unit ∧ ofDecimal n unit = x := by
  unfold candidate at h
  dsimp only at h
  obtain ⟨n, hn, rfl⟩ := Option.map_eq_some_iff.1 h
  refine ⟨n, rfl, Float.toBits_inj.1 ?_⟩
  simpa using List.find?_some hn

/-- The shortest digits of a number denote it. -/
theorem shortest_denotes {x : Float} {s : Nat} {e : Int} (h : exact x = .finite false s e) :
    ∃ n unit, shortest x s e = Digits.ofScaled n unit ∧ ofDecimal n unit = x := by
  unfold shortest
  split
  · case isTrue hs =>
    subst hs
    exact ⟨0, 0, rfl, ofDecimal_eq h (by simp)⟩
  · dsimp only
    split
    · case h_1 digits hfound =>
      obtain ⟨count, -, hcount⟩ := List.exists_of_findSome?_eq_some hfound
      obtain ⟨n, hdigits, hn⟩ := candidate_denotes hcount
      exact ⟨n, _, hdigits, hn⟩
    · split
      · case isTrue he =>
        refine ⟨_, _, rfl, ofDecimal_eq h ?_⟩
        obtain ⟨k, rfl⟩ : ∃ k : Nat, e = -k := ⟨(-e).toNat, by omega⟩
        have hten : (10 : ℚ) = 2 * 5 := by norm_num
        rw [neg_neg, Int.toNat_natCast, Nat.pow_eq, hten, zpow_neg, zpow_neg, zpow_natCast,
          zpow_natCast, mul_pow]
        push_cast
        field_simp
      · case isFalse he =>
        refine ⟨_, _, rfl, ofDecimal_eq h ?_⟩
        obtain ⟨k, rfl⟩ : ∃ k : Nat, e = k := ⟨e.toNat, by omega⟩
        simp [scale]

theorem spelling_finite {x : Float} {s : Nat} {e : Int} (h : exact x = .finite false s e) :
    (spelling x).toList = (shortest x s e).positional := by
  unfold spelling
  rw [h]
  exact String.toList_ofList

/-- The spelling of a finite number that is not negative is a numeral, and read as this number. -/
theorem read_spelling {x : Float} {s : Nat} {e : Int} (h : exact x = .finite false s e) :
    Numeral (spelling x).toList ∧ Number.read (spelling x).toList = some x := by
  rw [spelling_finite h]
  obtain ⟨n, unit, hshortest, hn⟩ := shortest_denotes h
  obtain ⟨hne, hdigits, hvalue⟩ := ofScaled_denotes n unit
  obtain ⟨hnumeral, hread⟩ := readDecimal_positional hne hdigits
  rw [hshortest]
  refine ⟨hnumeral, ?_⟩
  rw [hnumeral.read_eq_readDecimal, hread, hvalue, hn]

end Offside.Number
