import ClusterBench.Proofs.Binary64.Digits
import ClusterBench.Proofs.Binary64.Significant

/-!
# Texts that read back

A double that is written with a fixed number of decimals, or with six significant digits, is in
general another double when it is read again. But this one is written as the same text: the double
nearest to a decimal is at least as near to it as the one that was rounded to the decimal.
-/

namespace ClusterBench

namespace Binary64

theorem magnitude_le {x : Binary64} (hx : x.isFinite) :
    x.magnitude ≤ (2 ^ 53 - 1) * 2 ^ 971 := by
  have hle := units_le hx
  rw [pow_topShift, ← mul_assoc] at hle
  unfold magnitude magnitudeOf
  rwa [div_le_iff₀ (by positivity)]

section OfDecimal

variable (negative : Bool) {digits : ℕ} {exponent : ℤ}

/-- A decimal of a size that doubles have is rounded as a quotient of units. -/
theorem ofDecimal_eq_ofQuotient (hdigits : digits ≠ 0)
    (hlow : -330 ≤ (digits.log2 : ℤ) * 30103 / 100000 + exponent)
    (hhigh : (digits.log2 : ℤ) * 30103 / 100000 + exponent ≤ 310) :
    ∃ num den : ℕ, 0 < den ∧ (num / den : ℚ) = digits * 10 ^ exponent * 2 ^ unitBits ∧
      ofDecimal negative digits exponent = ofQuotient negative num den := by
  unfold ofDecimal ofFraction
  dsimp only
  rw [if_neg hdigits, if_neg (by omega), if_neg (by omega)]
  cases exponent with
  | ofNat e =>
    refine ⟨digits * 10 ^ e * 2 ^ unitBits, 1, one_pos, ?_, rfl⟩
    push_cast
    rw [div_one, Int.ofNat_eq_natCast, zpow_natCast]
  | negSucc e =>
    refine ⟨digits * 2 ^ unitBits, 10 ^ (e + 1), by positivity, ?_, rfl⟩
    push_cast
    rw [zpow_negSucc]
    field_simp

/-- The double that a decimal is read as: no other one is nearer. -/
structure IsDoubleNearest (negative : Bool) (v : ℚ) (y : Binary64) : Prop where
  finite : y.isFinite
  sign : y.negative = negative
  nearest : ∀ x : Binary64, |v - y.magnitude| ≤ |v - x.magnitude|
  close : |v - y.magnitude| ≤ Max.max (1 / 2 ^ 1075) (v / 2 ^ 53)

theorem isDoubleNearest_ofQuotient {num den : ℕ} {v : ℚ} (hden : 0 < den)
    (hquotient : (num / den : ℚ) = v * 2 ^ unitBits) (hend : v < (2 ^ 53 - 1 / 2) * 2 ^ 971) :
    IsDoubleNearest negative v (ofQuotient negative num den) := by
  have hunit : (0 : ℚ) < 2 ^ unitBits := by positivity
  have hstart : (num / den : ℚ) < overflowStart := by
    rw [hquotient, overflowStart, pow_topShift, ← mul_assoc]
    exact mul_lt_mul_of_pos_right hend hunit
  have hscale : ∀ x : Binary64, |v - x.magnitude| =
      |(num / den : ℚ) - x.units| / 2 ^ unitBits := by
    intro x
    rw [hquotient, magnitude, magnitudeOf, ← abs_of_pos hunit, ← abs_div, abs_of_pos hunit,
      sub_div, mul_div_cancel_right₀ _ hunit.ne']
  obtain ⟨-, hfinite, hsign⟩ := units_ofQuotient negative hden hstart
  refine ⟨hfinite, hsign, fun x => ?_, ?_⟩
  · rw [hscale, hscale]
    exact div_le_div_of_nonneg_right (ofQuotient_nearest negative hden hstart x) hunit.le
  · rw [hscale, div_le_iff₀ hunit, max_mul_of_nonneg _ _ hunit.le]
    have hclose := ofQuotient_close negative hden hstart
    have hhalf : (1 / 2 ^ 1075 * 2 ^ unitBits : ℚ) = 1 / 2 := by
      rw [div_mul_eq_mul_div, div_eq_div_iff (by positivity) two_ne_zero, one_mul, one_mul,
        ← pow_succ]
    rw [hhalf]
    rwa [hquotient, mul_div_right_comm, ← hquotient] at hclose

theorem isDoubleNearest_ofDecimal (hdigits : digits ≠ 0)
    (hlow : -330 ≤ (digits.log2 : ℤ) * 30103 / 100000 + exponent)
    (hhigh : (digits.log2 : ℤ) * 30103 / 100000 + exponent ≤ 310)
    (hend : (digits * 10 ^ exponent : ℚ) < (2 ^ 53 - 1 / 2) * 2 ^ 971) :
    IsDoubleNearest negative (digits * 10 ^ exponent) (ofDecimal negative digits exponent) := by
  obtain ⟨num, den, hden, hquotient, heq⟩ :=
    ofDecimal_eq_ofQuotient negative hdigits hlow hhigh
  rw [heq]
  exact isDoubleNearest_ofQuotient negative hden hquotient hend

end OfDecimal

theorem toList_signText (x : Binary64) : x.signText.toList = signChars x.negative := by
  unfold signText signChars
  cases x.negative <;> rfl

theorem isNearest_scaled (places : ℕ) (x : Binary64) :
    IsNearest (x.scaled places) (x.magnitude * 10 ^ places) := by
  have h := isNearest_roundHalfEven (x.units * 10 ^ places) (Nat.two_pow_pos unitBits)
  push_cast at h
  unfold scaled magnitude magnitudeOf
  rwa [div_mul_eq_mul_div]

theorem scaled_eq {places n : ℕ} {x : Binary64} (h : IsNearest n (x.magnitude * 10 ^ places)) :
    x.scaled places = n :=
  (isNearest_scaled places x).unique h

/-- Rounding the double that is read for the decimals gives the same decimals. -/
theorem scaled_of_isDoubleNearest {places : ℕ} {x y : Binary64}
    (h : IsDoubleNearest x.negative (x.scaled places * 10 ^ (-(places : ℤ))) y) :
    y.scaled places = x.scaled places := by
  have hp : (0 : ℚ) < 10 ^ places := by positivity
  have hdistance : ∀ z : Binary64, |z.magnitude * 10 ^ places - x.scaled places| =
      |(x.scaled places * 10 ^ (-(places : ℤ)) : ℚ) - z.magnitude| * 10 ^ places := by
    intro z
    rw [← abs_of_pos hp, ← abs_mul, abs_of_pos hp, abs_sub_comm, sub_mul, zpow_neg, zpow_natCast,
      inv_mul_cancel_right₀ hp.ne']
  apply scaled_eq
  apply (isNearest_scaled places x).of_closer
  rw [hdistance, hdistance]
  exact mul_le_mul_of_nonneg_right (h.nearest x) hp.le

theorem scaled_two_lt {x : Binary64} (hx : x.isFinite) :
    (x.scaled 2 : ℚ) < (2 ^ 53 - 1 / 2) * 2 ^ 971 * 10 ^ 2 := by
  have hclose := (abs_le.mp (isNearest_scaled 2 x).close).1
  have hle := magnitude_le hx
  have hone : (1 : ℚ) ≤ 2 ^ 971 := one_le_pow₀ one_le_two
  generalize (2 : ℚ) ^ 971 = p at *
  generalize x.magnitude = m at *
  generalize (x.scaled 2 : ℚ) = s at *
  linarith

theorem log2_le_of_cast_lt {n k : ℕ} (h : (n : ℚ) < 2 ^ (k + 1)) : n.log2 ≤ k := by
  by_cases hzero : n = 0
  · simp [hzero]
  · have hnat : n < 2 ^ (k + 1) := by exact_mod_cast h
    exact Nat.lt_succ_iff.mp ((Nat.log2_lt hzero).mpr hnat)

/-- Two decimals of a double, without the point, have at most 1032 bits. -/
theorem log2_scaled_two_le {x : Binary64} (hx : x.isFinite) : (x.scaled 2).log2 ≤ 60 + 971 := by
  apply log2_le_of_cast_lt
  have hbits : ((2 : ℚ) ^ 53 - 1 / 2) * 2 ^ 971 * 10 ^ 2 ≤ 2 ^ (60 + 1) * 2 ^ 971 := by
    rw [mul_right_comm]
    exact mul_le_mul_of_nonneg_right (by norm_num) (by positivity)
  rw [add_right_comm, pow_add _ _ 971]
  exact (scaled_two_lt hx).trans_le hbits

theorem fixed_of_not_isFinite {x : Binary64} (hx : x.isFinite = false) (places : ℕ) :
    x.fixed places = x.specialText := by
  rw [fixed, if_neg (by rw [hx]; exact Bool.false_ne_true)]

theorem general_of_not_isFinite {x : Binary64} (hx : x.isFinite = false) :
    x.general = x.specialText.toLower := by
  have hexp : x.exponent.val = 2047 := by simpa [isFinite] using hx
  have hzero : x.isZero = false := by simp [isZero, hexp]
  simp [general, hzero, hx]

theorem toList_fixed {x : Binary64} (hx : x.isFinite) {places : ℕ} (h : places ≠ 0) :
    (x.fixed places).toList = signChars x.negative ++
      (Nat.toDigits 10 (x.scaled places / 10 ^ places) ++
        pointed (decimalChars places (x.scaled places)) ++ []) := by
  have hne : decimalChars places (x.scaled places) ≠ [] := by
    rw [← List.length_pos_iff, length_decimalChars h]
    omega
  rw [fixed, if_pos hx, String.toList_append, toList_signText, toList_placesText h, pointed,
    if_neg hne, List.append_nil]

theorem readChars?_fixed {x : Binary64} (hx : x.isFinite) {places : ℕ} (h : places ≠ 0) :
    readChars? (x.fixed places).toList =
      some (ofDecimal x.negative (x.scaled places) (-places)) := by
  rw [toList_fixed hx h, readChars?_numeral x.negative (allDigits_toDigits _) Nat.toDigits_ne_nil
    (allDigits_decimalChars _ _) (by simp) rfl, digitsValue_toDigits_append h,
    length_decimalChars h, zero_sub]

/-- What two decimals are read as is written with the same two decimals. -/
theorem fixed_two_readBack {x : Binary64} (hx : x.isFinite) :
    ∃ y, readChars? (x.fixed 2).toList = some y ∧ y.fixed 2 = x.fixed 2 := by
  refine ⟨_, readChars?_fixed hx two_ne_zero, ?_⟩
  by_cases hzero : x.scaled 2 = 0
  · have hread : ofDecimal x.negative (x.scaled 2) (-((2 : ℕ) : ℤ)) = signedZero x.negative := by
      unfold ofDecimal
      rw [if_pos hzero]
    have hscaled : (signedZero x.negative).scaled 2 = 0 := by
      simp [scaled, signedZero, units, roundHalfEven]
    rw [hread, fixed, fixed, if_pos hx, if_pos (by simp [isFinite, signedZero]), hscaled, hzero]
    rfl
  have hlog := log2_scaled_two_le hx
  have hread : IsDoubleNearest x.negative (x.scaled 2 * 10 ^ (-((2 : ℕ) : ℤ)))
      (ofDecimal x.negative (x.scaled 2) (-((2 : ℕ) : ℤ))) := by
    apply isDoubleNearest_ofDecimal x.negative hzero (by omega) (by omega)
    rw [zpow_neg, zpow_natCast, ← div_eq_mul_inv, div_lt_iff₀ (by positivity)]
    exact scaled_two_lt hx
  rw [fixed, fixed, if_pos hx, if_pos hread.finite, scaled_of_isDoubleNearest hread, signText,
    signText, hread.sign]

def generalText (sign : String) (d : Decimal) : String :=
  if d.leading < -4 || 6 ≤ d.leading then
    sign ++ trimZeros d.mantissa ++ "e" ++ (if d.leading < 0 then "-" else "+") ++
      padZeros 2 (digitsText d.leading.natAbs)
  else trimZeros (sign ++ placesText (5 - d.leading).toNat d.digits)

theorem leading_significant {x : Binary64} (h : x.isZero = false) :
    (significant 5 x.units).leading = (significant 5 x.units).exponent + 5 := by
  obtain ⟨hlow, hhigh, -⟩ := significant_spec 5 (isZero_eq_false_iff.mp h)
  rw [Decimal.leading, digitCount_eq hlow hhigh]
  push_cast
  ring

/-- Written out, a number shows the same digits as with an exponent. -/
theorem scaled_significant {x : Binary64} (h : x.isZero = false)
    (hexp : (significant 5 x.units).exponent ≤ 0) :
    x.scaled (5 - (significant 5 x.units).leading).toNat = (significant 5 x.units).digits := by
  obtain ⟨-, -, hnearest⟩ := significant_spec 5 (isZero_eq_false_iff.mp h)
  rw [leading_significant h]
  generalize significant 5 x.units = d at *
  have hplaces : ((5 - (d.exponent + 5)).toNat : ℤ) = -d.exponent := by omega
  apply scaled_eq
  rwa [← zpow_natCast, hplaces, zpow_neg, ← div_eq_mul_inv]

theorem general_eq_generalText {x : Binary64} (hx : x.isFinite) (h : x.isZero = false) :
    x.general = generalText x.signText (significant 5 x.units) := by
  have hleading := leading_significant h
  unfold general generalText
  rw [h, if_neg Bool.false_ne_true, if_pos hx]
  dsimp only
  by_cases hscientific : (decide ((significant 5 x.units).leading < -4) ||
      decide (6 ≤ (significant 5 x.units).leading)) = true
  · rw [if_pos hscientific, if_pos hscientific]
  · have hexp : (significant 5 x.units).exponent ≤ 0 := by
      simp only [Bool.or_eq_true, decide_eq_true_eq, not_or] at hscientific
      omega
    rw [if_neg hscientific, if_neg hscientific]
    unfold fixed
    rw [if_pos hx, scaled_significant h hexp]

def exponentChars (n : ℕ) : List Char :=
  List.replicate (2 - (Nat.toDigits 10 n).length) '0' ++ Nat.toDigits 10 n

theorem allDigits_exponentChars (n : ℕ) : AllDigits (exponentChars n) :=
  (allDigits_replicate_zero _).append (allDigits_toDigits n)

theorem digitsValue_exponentChars (n : ℕ) : digitsValue (exponentChars n) = n := by
  rw [exponentChars, digitsValue_append, digitsValue_replicate_zero, digitsValue_toDigits]
  omega

def exponentPart (e : ℤ) : List Char :=
  'e' :: (if e < 0 then '-' else '+') :: exponentChars e.natAbs

theorem head_exponentPart (e : ℤ) :
    ∀ c ∈ (exponentPart e).head?, c.isDigit = false ∧ c ≠ '.' := by
  intro c hc
  obtain rfl : 'e' = c := by simpa [exponentPart] using hc
  decide

theorem readExponent_exponentPart (e : ℤ) : Numeral.readExponent (exponentPart e) = some e := by
  have hread := readExponent_digits (allDigits_exponentChars e.natAbs)
    (by simp [exponentChars, Nat.toDigits_ne_nil]) (decide (e < 0))
  rw [digitsValue_exponentChars] at hread
  simp only [decide_eq_true_eq] at hread
  rw [exponentPart, hread]
  congr 1
  split_ifs <;> omega

theorem allNumeral_exponentPart (e : ℤ) : AllNumeral (exponentPart e) := by
  apply AllNumeral.cons (by decide)
  apply AllNumeral.cons (by split_ifs <;> decide)
  exact (allDigits_exponentChars _).allNumeral

def generalChars (d : Decimal) : List Char :=
  if d.leading < -4 || 6 ≤ d.leading then
    Nat.toDigits 10 (d.digits / 10 ^ 5) ++ pointed (keptDecimals 5 d.digits) ++
      exponentPart d.leading
  else
    Nat.toDigits 10 (d.digits / 10 ^ (5 - d.leading).toNat) ++
      pointed (keptDecimals (5 - d.leading).toNat d.digits)

theorem toList_generalText {negative : Bool} {sign : String} {d : Decimal}
    (hsign : sign.toList = signChars negative) (hdigits : digitCount d.digits = 6) :
    (generalText sign d).toList = signChars negative ++ generalChars d := by
  have hpoint : '.' ∉ sign.toList := by
    rw [hsign]
    cases negative <;> decide
  rw [← hsign]
  by_cases h : (decide (d.leading < -4) || decide (6 ≤ d.leading)) = true
  · have hmantissa := toList_trimZeros_placesText "" (by simp) 5 d.digits
    rw [String.empty_append, String.toList_empty, List.nil_append] at hmantissa
    rw [generalText, generalChars, if_pos h, if_pos h]
    simp only [Decimal.mantissa, hdigits, String.toList_append, hmantissa, padZeros, exponentPart,
      exponentChars]
    split_ifs <;> simp [digitsText]
  · rw [generalText, generalChars, if_neg h, if_neg h, toList_trimZeros_placesText sign hpoint,
      List.append_assoc]

theorem toList_general {x : Binary64} (hx : x.isFinite) (h : x.isZero = false) :
    x.general.toList = signChars x.negative ++ generalChars (significant 5 x.units) := by
  obtain ⟨hlow, hhigh, -⟩ := significant_spec 5 (isZero_eq_false_iff.mp h)
  rw [general_eq_generalText hx h,
    toList_generalText (toList_signText x) (digitCount_eq hlow hhigh)]

theorem head_generalChars (d : Decimal) : ∀ c ∈ (generalChars d).head?, c.isDigit := by
  have hhead (n : ℕ) (rest : List Char) :
      ∀ c ∈ (Nat.toDigits 10 n ++ rest).head?, c.isDigit := by
    intro c hc
    apply allDigits_toDigits n
    rw [List.head?_append_of_ne_nil _ Nat.toDigits_ne_nil] at hc
    exact List.mem_of_head? hc
  unfold generalChars
  split_ifs
  · rw [List.append_assoc]
    exact hhead _ _
  · exact hhead _ _

theorem allNumeral_fixed {x : Binary64} (hx : x.isFinite) {places : ℕ} (h : places ≠ 0) :
    AllNumeral (x.fixed places).toList := by
  rw [toList_fixed hx h, List.append_nil]
  exact (allNumeral_signChars _).append
    ((allDigits_toDigits _).allNumeral.append (allNumeral_pointed (allDigits_decimalChars _ _)))

theorem allNumeral_generalChars (d : Decimal) : AllNumeral (generalChars d) := by
  have hplain (n places : ℕ) :
      AllNumeral (Nat.toDigits 10 n ++ pointed (keptDecimals places d.digits)) :=
    (allDigits_toDigits n).allNumeral.append (allNumeral_pointed (allDigits_keptDecimals _ _))
  unfold generalChars
  split_ifs
  · exact (hplain _ _).append (allNumeral_exponentPart _)
  · exact hplain _ _

theorem allNumeral_general {x : Binary64} (hx : x.isFinite) : AllNumeral x.general.toList := by
  by_cases hzero : x.isZero
  · rw [general, if_pos hzero]
    exact (allDigits_replicate_zero 1).allNumeral
  · rw [Bool.not_eq_true] at hzero
    rw [toList_general hx hzero]
    exact (allNumeral_signChars _).append (allNumeral_generalChars _)

/-- The text of a decimal is read as the decimal, with zeros moved from the digits to the
exponent. -/
theorem read?_generalChars {d : Decimal} (hdigits : digitCount d.digits = 6) :
    ∃ (n : Numeral) (zeros : ℕ), Numeral.read? (generalChars d) = some n ∧
      digitsValue (n.whole ++ n.decimals) * 10 ^ zeros = d.digits ∧
      n.exponent - n.decimals.length = d.exponent + zeros := by
  have hleading : d.leading = d.exponent + 5 := by
    rw [Decimal.leading, hdigits]
    push_cast
    ring
  unfold generalChars
  split_ifs with h
  · have hlength := length_keptDecimals_le 5 d.digits
    rw [read?_numeral (allDigits_toDigits _) Nat.toDigits_ne_nil (allDigits_keptDecimals _ _)
      (head_exponentPart _), readExponent_exponentPart]
    refine ⟨_, _, rfl, digitsValue_keptDecimals 5 d.digits, ?_⟩
    dsimp only
    omega
  · have hlength := length_keptDecimals_le (5 - d.leading).toNat d.digits
    rw [← List.append_nil (_ ++ _), read?_numeral (allDigits_toDigits _) Nat.toDigits_ne_nil
      (allDigits_keptDecimals _ _) (by simp)]
    refine ⟨_, _, rfl, digitsValue_keptDecimals (5 - d.leading).toNat d.digits, ?_⟩
    simp only [Bool.or_eq_true, decide_eq_true_eq, not_or] at h
    dsimp only
    omega

theorem readChars?_generalText (negative : Bool) {sign : String} {d : Decimal}
    (hsign : sign.toList = signChars negative) (hdigits : digitCount d.digits = 6) :
    ∃ digits zeros : ℕ, digits * 10 ^ zeros = d.digits ∧
      readChars? (generalText sign d).toList =
        some (ofDecimal negative digits (d.exponent + zeros)) := by
  obtain ⟨n, zeros, hread, hvalue, hexponent⟩ := read?_generalChars hdigits
  refine ⟨_, zeros, hvalue, ?_⟩
  unfold readChars?
  rw [toList_generalText hsign hdigits, splitSign_signChars negative (head_generalChars d)]
  dsimp only
  rw [hread, ← hexponent]
  rfl

/-- A double that has all its bits: its magnitude is at least `2 ^ (-1022)`. -/
def IsNormal (x : Binary64) : Prop := x.isFinite ∧ 2 ^ fractionBits ≤ x.units

/-- The greatest magnitude, in ten to the 303rd, lies between 179769 and 179769.5. -/
theorem top_magnitude : (10 : ℚ) ^ 308 < (2 ^ 53 - 1) * 2 ^ 971 ∧
    179769 * (10 : ℚ) ^ 303 < (2 ^ 53 - 1) * 2 ^ 971 ∧
    (2 ^ 53 - 1) * 2 ^ 971 < (179769 + 1 / 2) * (10 : ℚ) ^ 303 := by
  have hone : ((2 ^ 53 - 1 : ℕ) : ℚ) = 2 ^ 53 - 1 := by norm_num
  have h₁ : 10 ^ 308 < (2 ^ 53 - 1) * 2 ^ 971 := by decide +kernel
  have h₂ : 179769 * 10 ^ 303 < (2 ^ 53 - 1) * 2 ^ 971 := by decide +kernel
  have h₃ : 2 * ((2 ^ 53 - 1) * 2 ^ 971) < 359539 * 10 ^ 303 := by decide +kernel
  rw [← hone]
  refine ⟨by exact_mod_cast h₁, by exact_mod_cast h₂, ?_⟩
  have h₃' : (2 : ℚ) * ((2 ^ 53 - 1 : ℕ) * 2 ^ 971) < 359539 * 10 ^ 303 := by exact_mod_cast h₃
  generalize ((2 ^ 53 - 1 : ℕ) * 2 ^ 971 : ℚ) = top at *
  generalize (10 : ℚ) ^ 303 = p at *
  linarith

section Normal

variable {x : Binary64}

theorem IsNormal.isZero_eq_false (h : x.IsNormal) : x.isZero = false :=
  isZero_eq_false_iff.mpr ((Nat.two_pow_pos fractionBits).trans_le h.2)

theorem IsNormal.le_magnitude (h : x.IsNormal) : (1 : ℚ) / 2 ^ 1022 ≤ x.magnitude := by
  have hunits : (2 : ℚ) ^ 52 ≤ x.units := by exact_mod_cast h.2
  have hpow : (2 : ℚ) ^ unitBits = 2 ^ 52 * 2 ^ 1022 := by rw [← pow_add]
  unfold magnitude magnitudeOf
  rw [hpow, div_le_div_iff₀ (by positivity) (by positivity), one_mul]
  exact mul_le_mul_of_nonneg_right hunits (by positivity)

theorem pow_ten_small {e : ℤ} (he : e ≤ -330) : (10 : ℚ) ^ 6 * 10 ^ e < 1 / 2 ^ 1022 := by
  have hpow : (2 : ℚ) ^ 1022 < 10 ^ 324 := by
    have h : 2 ^ 1022 < 10 ^ 324 := by decide +kernel
    exact_mod_cast h
  have hle : (10 : ℚ) ^ 6 * 10 ^ e ≤ 10 ^ (-324 : ℤ) := by
    rw [← zpow_natCast, ← zpow_add₀ (by norm_num)]
    exact zpow_le_zpow_right₀ (by norm_num) (by push_cast; omega)
  rw [zpow_neg, ← one_div] at hle
  apply hle.trans_lt
  exact one_div_lt_one_div_of_lt (by positivity) hpow

section Step

variable {v : ℚ} {m : ℕ} {e : ℤ}

/-- Six digits of a magnitude that doubles have end at a step of at most ten to the 303rd. -/
theorem exponent_le_of_le_top (htop : v ≤ (2 ^ 53 - 1) * 2 ^ 971) (hlow : 10 ^ 5 ≤ m)
    (hleft : (-(1 / 2) + m) * 10 ^ e ≤ v) : e ≤ 303 := by
  obtain ⟨-, -, hbound⟩ := top_magnitude
  have hlow' : (10 : ℚ) ^ 5 ≤ m := by exact_mod_cast hlow
  by_contra! hgt
  have hpow : (10 : ℚ) ^ 303 * 10 ≤ 10 ^ e := by
    rw [← pow_succ, ← zpow_natCast]
    exact zpow_le_zpow_right₀ (by norm_num) (by push_cast; omega)
  have hmul : ((10 : ℚ) ^ 5 - 1) * 10 ^ e ≤ (-(1 / 2) + m) * 10 ^ e :=
    mul_le_mul_of_nonneg_right (by linarith) (by positivity)
  have hpos : (0 : ℚ) < 10 ^ 303 := by positivity
  generalize (10 : ℚ) ^ 303 = p at *
  generalize ((2 : ℚ) ^ 53 - 1) * 2 ^ 971 = top at *
  linarith only [hpow, hmul, hleft, htop, hbound, hpos]

/-- Six digits of a magnitude that doubles have do not pass the greatest double. -/
theorem decimal_lt_top (htop : v ≤ (2 ^ 53 - 1) * 2 ^ 971) (hhigh : m < 10 ^ 6)
    (hleft : (-(1 / 2) + m) * 10 ^ e ≤ v) (he : e ≤ 303) :
    (m * 10 ^ e : ℚ) < (2 ^ 53 - 1) * 2 ^ 971 := by
  obtain ⟨h₁, h₂, h₃⟩ := top_magnitude
  rcases he.lt_or_eq with hlt | rfl
  · have hhigh' : (m : ℚ) ≤ 10 ^ 6 := by exact_mod_cast hhigh.le
    calc (m * 10 ^ e : ℚ)
        ≤ 10 ^ 6 * 10 ^ e := mul_le_mul_of_nonneg_right hhigh' (by positivity)
      _ ≤ 10 ^ 308 := by
          rw [← zpow_natCast, ← zpow_natCast, ← zpow_add₀ (by norm_num)]
          exact zpow_le_zpow_right₀ (by norm_num) (by push_cast; omega)
      _ < (2 ^ 53 - 1) * 2 ^ 971 := h₁
  · -- Only the last decade can pass the greatest double.
    have hcast : (10 : ℚ) ^ (303 : ℤ) = 10 ^ 303 := zpow_natCast _ _
    rw [hcast] at hleft ⊢
    have hlast : m ≤ 179769 := by
      have hlt : (-(1 / 2) + m : ℚ) * 10 ^ 303 < (179769 + 1 / 2) * 10 ^ 303 :=
        (hleft.trans htop).trans_lt h₃
      have hm := lt_of_mul_lt_mul_right hlt (by positivity)
      have hsucc : (m : ℚ) < 179770 := by linarith only [hm]
      have : m < 179770 := by exact_mod_cast hsucc
      omega
    have hmul : (m : ℚ) * 10 ^ 303 ≤ 179769 * 10 ^ 303 :=
      mul_le_mul_of_nonneg_right (by exact_mod_cast hlast) (by positivity)
    exact hmul.trans_lt h₂

/-- The decimal of a normal double has a step that is neither too fine nor too coarse, and it does
not pass the greatest double. -/
theorem step_bounds (hbottom : 1 / 2 ^ 1022 ≤ v) (htop : v ≤ (2 ^ 53 - 1) * 2 ^ 971)
    (hlow : 10 ^ 5 ≤ m) (hhigh : m < 10 ^ 6) (hnearest : IsNearest m (v / 10 ^ e)) :
    (1 : ℚ) / 2 ^ 1022 ≤ 10 ^ 6 * 10 ^ e ∧ -330 < e ∧ e ≤ 303 ∧
      (m * 10 ^ e : ℚ) < (2 ^ 53 - 1) * 2 ^ 971 := by
  have hstep : (0 : ℚ) < 10 ^ e := by positivity
  have hhigh' : (m : ℚ) + 1 ≤ 10 ^ 6 := by exact_mod_cast hhigh
  obtain ⟨hleft, hright⟩ := abs_le.mp hnearest.close
  rw [le_sub_iff_add_le, le_div_iff₀ hstep] at hleft
  rw [sub_le_iff_le_add, div_le_iff₀ hstep] at hright
  have hle : v ≤ 10 ^ 6 * 10 ^ e :=
    hright.trans (mul_le_mul_of_nonneg_right (by linarith) hstep.le)
  have hcoarse := exponent_le_of_le_top htop hlow hleft
  refine ⟨hbottom.trans hle, ?_, hcoarse, decimal_lt_top htop hhigh hleft hcoarse⟩
  by_contra! hfine
  exact absurd (pow_ten_small hfine) (not_lt.mpr (hbottom.trans hle))

/-- The double that is read for six digits of a normal double is near to them. -/
theorem near_of_isDoubleNearest {negative : Bool} {y : Binary64} (hhigh : m < 10 ^ 6)
    (hfine : (1 : ℚ) / 2 ^ 1022 ≤ 10 ^ 6 * 10 ^ e)
    (hy : IsDoubleNearest negative (m * 10 ^ e) y) :
    |y.magnitude - m * 10 ^ e| < 10 ^ e / 20 := by
  have hstep : (0 : ℚ) < 10 ^ e := by positivity
  have hhigh' : (m : ℚ) ≤ 10 ^ 6 := by exact_mod_cast hhigh.le
  rw [abs_sub_comm]
  apply hy.close.trans_lt
  rw [max_lt_iff]
  constructor
  · have hpow : (1 : ℚ) / 2 ^ 1075 = 1 / 2 ^ 1022 / 2 ^ 53 := by
      rw [div_div, ← pow_add]
    rw [hpow]
    generalize (1 : ℚ) / 2 ^ 1022 = bottom at *
    rw [div_lt_iff₀ (by positivity)]
    linarith
  · have hmul : (m : ℚ) * 10 ^ e ≤ 10 ^ 6 * 10 ^ e :=
      mul_le_mul_of_nonneg_right hhigh' hstep.le
    rw [div_lt_iff₀ (by positivity)]
    linarith

/-- A double near to a decimal of six digits is not zero. -/
theorem units_pos_of_near {y : Binary64} (hlow : 10 ^ 5 ≤ m)
    (hclose : |y.magnitude - m * 10 ^ e| < 10 ^ e / 20) : 0 < y.units := by
  by_contra! hle
  have hstep : (0 : ℚ) < 10 ^ e := by positivity
  have hlow' : (10 : ℚ) ^ 5 * 10 ^ e ≤ m * 10 ^ e :=
    mul_le_mul_of_nonneg_right (by exact_mod_cast hlow) hstep.le
  rw [magnitude, magnitudeOf, Nat.le_zero.mp hle, Nat.cast_zero, zero_div] at hclose
  have hleft := (abs_lt.mp hclose).1
  linarith only [hleft, hlow', hstep]

end Step

/-- Each zero that a number of six digits ends in stands for three bits. -/
theorem log2_add_zeros_le {digits zeros : ℕ} (hne : digits ≠ 0)
    (hhigh : digits * 10 ^ zeros < 10 ^ 6) : digits.log2 + 3 * zeros ≤ 19 := by
  have hlt : 2 ^ (digits.log2 + 3 * zeros) < 2 ^ 20 := by
    calc 2 ^ (digits.log2 + 3 * zeros) = 2 ^ digits.log2 * 8 ^ zeros := by
          rw [pow_add, pow_mul]; rfl
      _ ≤ digits * 10 ^ zeros :=
          Nat.mul_le_mul (Nat.log2_self_le hne) (Nat.pow_le_pow_left (by norm_num) _)
      _ < 2 ^ 20 := by omega
  have := (Nat.pow_lt_pow_iff_right (by norm_num)).mp hlt
  omega

/-- Six significant digits of a normal double are read as a double that is written with the same
digits. -/
theorem general_readBack (h : x.IsNormal) :
    ∃ y, readChars? x.general.toList = some y ∧ y.general = x.general := by
  have hzero := h.isZero_eq_false
  obtain ⟨hlow, hhigh, hnearest⟩ := significant_spec 5 (isZero_eq_false_iff.mp hzero)
  have hcount := digitCount_eq hlow hhigh
  obtain ⟨digits, zeros, hdigits, hread⟩ :=
    readChars?_generalText x.negative (toList_signText x) hcount
  obtain ⟨hfine, hmin, hmax, htop⟩ :=
    step_bounds h.le_magnitude (magnitude_le h.1) hlow hhigh hnearest
  rw [general_eq_generalText h.1 hzero]
  refine ⟨_, hread, ?_⟩
  generalize hd : significant 5 x.units = d at *
  have hvalue : (digits * 10 ^ (d.exponent + zeros) : ℚ) = d.digits * 10 ^ d.exponent := by
    rw [zpow_add₀ (by norm_num), zpow_natCast, ← hdigits]
    push_cast
    ring
  have hne : digits ≠ 0 := by
    rintro rfl
    omega
  have hbits := log2_add_zeros_le hne (hdigits.trans_lt hhigh)
  have hnear : IsDoubleNearest x.negative (d.digits * 10 ^ d.exponent)
      (ofDecimal x.negative digits (d.exponent + zeros)) := by
    rw [← hvalue]
    apply isDoubleNearest_ofDecimal x.negative hne (by omega) (by omega)
    rw [hvalue]
    apply htop.trans
    exact mul_lt_mul_of_pos_right (by norm_num) (by positivity)
  have hclose := near_of_isDoubleNearest hhigh hfine hnear
  generalize ofDecimal x.negative digits (d.exponent + zeros) = y at *
  have hpos := units_pos_of_near hlow hclose
  rw [general_eq_generalText hnear.finite (isZero_eq_false_iff.mpr hpos),
    significant_eq hpos hlow hhigh hclose, signText, hnear.sign, signText]

end Normal

end Binary64

end ClusterBench
