import ClusterBench.Json.Number
import ClusterBench.Proofs.Binary64.Order
import ClusterBench.Proofs.Binary64.ReadBack

/-!
# Scaling by powers of ten

A whole number is scaled by a power of ten with one rounding for the number, one or two for the
power and one for each product or quotient. Each adds half a last bit to the relative error, and a
result that has lost bits is off by less than the least positive double. A number of at most
fifty-three bits is a double, and so are the powers up to the twenty-second: then nothing is rounded
but the result.
-/

namespace ClusterBench

namespace Binary64

/-- Magnitudes from here on are rounded to infinity. -/
def magnitudeEnd : ℚ := (2 ^ 53 - 1 / 2) * 2 ^ 971

theorem overflowStart_eq : overflowStart = magnitudeEnd * 2 ^ unitBits := by
  rw [overflowStart, magnitudeEnd, pow_topShift, mul_assoc]

theorem magnitude_lt_end {x : Binary64} (hx : x.isFinite) : x.magnitude < magnitudeEnd :=
  (magnitude_le hx).trans_lt (mul_lt_mul_of_pos_right (by norm_num) (by positivity))

theorem magnitude_nonneg (x : Binary64) : 0 ≤ x.magnitude :=
  div_nonneg (Nat.cast_nonneg _) (by positivity)

theorem lt_magnitudeEnd : (10 : ℚ) ^ 308 < magnitudeEnd := by
  obtain ⟨htop, -, -⟩ := top_magnitude
  exact htop.trans (mul_lt_mul_of_pos_right (by norm_num) (by positivity))

theorem magnitudeEnd_lt : magnitudeEnd < (10 : ℚ) ^ 309 := by
  obtain ⟨-, -, htop⟩ := top_magnitude
  have hend : magnitudeEnd ≤ 2 * ((2 ^ 53 - 1) * 2 ^ 971) := by
    rw [← mul_assoc]
    exact mul_le_mul_of_nonneg_right (by norm_num) (by positivity)
  have hpow : (10 : ℚ) ^ (303 + 6) = 10 ^ 303 * 10 ^ 6 := pow_add _ _ _
  have hpos : (0 : ℚ) < 10 ^ 303 := by positivity
  rw [hpow]
  generalize (10 : ℚ) ^ 303 = p at *
  generalize ((2 : ℚ) ^ 53 - 1) * 2 ^ 971 = top at *
  linarith only [htop, hend, hpos]

/-- The greatest quotient that is rounded to infinity lies half-way above the greatest double. -/
theorem not_isFinite_ofQuotient {num den : ℕ} (hden : 0 < den)
    (h : overflowStart ≤ (num / den : ℚ)) : (ofQuotient false num den).isFinite = false := by
  have hstart : overflowStart = ((2 ^ 54 - 1) * 2 ^ topShift : ℕ) / (2 : ℕ) := by
    rw [overflowStart]
    push_cast
    ring
  have hrounded : roundedUnits ((2 ^ 54 - 1) * 2 ^ topShift) 2 = 2 ^ (53 + topShift) := by
    rw [topShift_eq]
    decide +kernel
  rw [hstart] at h
  have hle := roundedUnits_mono two_pos hden h
  rw [hrounded] at hle
  rw [ofQuotient_eq]
  rcases ofUnits_cases (fitsBits_roundedUnits num hden) with ⟨hlt, -⟩ | ⟨-, hinfinite⟩
  · exact absurd hle (not_le.mpr hlt)
  · rw [hinfinite]
    rfl

section Operations

variable {x y : Binary64}

theorem mul_eq_ofQuotient (hx : x.IsMagnitude) (hy : y.IsMagnitude) :
    x * y = ofQuotient false (x.units * y.units) (2 ^ unitBits) := by
  change mul x y = _
  simp only [mul, isNaN_of_isFinite hx.finite, isNaN_of_isFinite hy.finite,
    isInfinite_of_isFinite hx.finite, isInfinite_of_isFinite hy.finite, hx.sign, hy.sign,
    Bool.or_false, Bool.bne_false, Bool.false_eq_true, if_false]

/-- A product is rounded once, or it is infinite. -/
theorem mul_cases (hx : x.IsMagnitude) (hy : y.IsMagnitude) :
    IsDoubleNearest false (x.magnitude * y.magnitude) (x * y) ∨
      magnitudeEnd ≤ x.magnitude * y.magnitude ∧ (x * y).isFinite = false := by
  have hunit : (0 : ℚ) < 2 ^ unitBits := by positivity
  have hden : 0 < 2 ^ unitBits := Nat.two_pow_pos _
  have hquotient : ((x.units * y.units : ℕ) / (2 ^ unitBits : ℕ) : ℚ) =
      x.magnitude * y.magnitude * 2 ^ unitBits := by
    rw [magnitude, magnitude, magnitudeOf, magnitudeOf, Nat.cast_mul, Nat.cast_pow, Nat.cast_ofNat]
    generalize (2 : ℚ) ^ unitBits = unit at *
    field_simp
  rw [mul_eq_ofQuotient hx hy]
  rcases lt_or_ge (x.magnitude * y.magnitude) magnitudeEnd with hlt | hge
  · exact Or.inl (isDoubleNearest_ofQuotient false hden hquotient hlt)
  · refine Or.inr ⟨hge, not_isFinite_ofQuotient hden ?_⟩
    rw [hquotient, overflowStart_eq]
    exact mul_le_mul_of_nonneg_right hge hunit.le

/-- A quotient by at least one is rounded once. -/
theorem isDoubleNearest_div (hx : x.IsMagnitude) (hy : y.IsMagnitude) (hone : 1 ≤ y.magnitude) :
    IsDoubleNearest false (x.magnitude / y.magnitude) (x / y) := by
  have hunit : (0 : ℚ) < 2 ^ unitBits := by positivity
  have hpos : (0 : ℚ) < y.units := by
    have hne : y.magnitude ≠ 0 := (one_pos.trans_le hone).ne'
    rw [magnitude, magnitudeOf] at hne
    exact Nat.cast_pos.mpr (Nat.pos_of_ne_zero fun h => hne (by rw [h, Nat.cast_zero, zero_div]))
  have hquotient : ((x.units * 2 ^ unitBits : ℕ) / (y.units : ℕ) : ℚ) =
      x.magnitude / y.magnitude * 2 ^ unitBits := by
    rw [magnitude, magnitude, magnitudeOf, magnitudeOf, Nat.cast_mul, Nat.cast_pow, Nat.cast_ofNat]
    generalize (2 : ℚ) ^ unitBits = unit at *
    field_simp
  rw [div_eq_ofQuotient hx hy (Nat.cast_pos.mp hpos)]
  refine isDoubleNearest_ofQuotient false (Nat.cast_pos.mp hpos) hquotient ?_
  exact (div_le_self x.magnitude_nonneg hone).trans_lt (magnitude_lt_end hx.finite)

end Operations

section Naturals

variable {n : ℕ}

theorem isDoubleNearest_ofNat (h : (n : ℚ) < magnitudeEnd) : IsDoubleNearest false n (ofNat n) := by
  refine isDoubleNearest_ofQuotient false one_pos ?_ h
  rw [Nat.cast_one, div_one, Nat.cast_mul, Nat.cast_pow, Nat.cast_ofNat]

theorem IsDoubleNearest.isMagnitude {v : ℚ} {y : Binary64} (h : IsDoubleNearest false v y) :
    y.IsMagnitude := ⟨h.finite, h.sign⟩

/-- A number that doubles hold is its own nearest double. -/
theorem IsDoubleNearest.magnitude_eq {negative : Bool} {x y : Binary64}
    (h : IsDoubleNearest negative x.magnitude y) : y.magnitude = x.magnitude := by
  have hle := h.nearest x
  rw [sub_self, abs_zero] at hle
  exact (sub_eq_zero.mp (abs_nonpos_iff.mp hle)).symm

theorem lt_end_of_lt (h : n < 2 ^ 128) : (n : ℚ) < magnitudeEnd := by
  calc (n : ℚ) < 2 ^ 128 := by exact_mod_cast h
    _ ≤ 2 ^ (52 + 971) := pow_le_pow_right₀ one_le_two (by norm_num)
    _ = 2 ^ 52 * 2 ^ 971 := pow_add _ _ _
    _ ≤ magnitudeEnd := mul_le_mul_of_nonneg_right (by norm_num) (by positivity)

theorem magnitude_ofNat (hn : n < 2 ^ 128) (h : FitsBits n) : (ofNat n).magnitude = n := by
  obtain ⟨m, k, hfits, hm⟩ := h
  have hunits : n * 2 ^ unitBits = m * 2 ^ (k + unitBits) := by rw [hfits, mul_assoc, ← pow_add]
  have hend (j : ℕ) (hj : 128 + j ≤ 53 + topShift) : n * 2 ^ j < 2 ^ (53 + topShift) := by
    calc n * 2 ^ j < 2 ^ 128 * 2 ^ j := Nat.mul_lt_mul_of_pos_right hn (Nat.two_pow_pos j)
      _ = 2 ^ (128 + j) := by rw [pow_add]
      _ ≤ 2 ^ (53 + topShift) := Nat.pow_le_pow_right two_pos hj
  have hbits : 128 + unitBits ≤ 53 + topShift := by
    rw [topShift_eq]
    decide
  obtain ⟨hvalue, -, -⟩ := units_ofUnits false hunits hm (hend unitBits hbits)
  have hmagnitude : (ofUnits false (n * 2 ^ unitBits)).magnitude = n := by
    rw [magnitude, magnitudeOf, hvalue, Nat.cast_mul, Nat.cast_pow, Nat.cast_ofNat,
      mul_div_cancel_right₀ _ (by positivity)]
  have hnearest := isDoubleNearest_ofNat (lt_end_of_lt hn)
  rw [← hmagnitude] at hnearest ⊢
  exact hnearest.magnitude_eq

def halfUnit : ℚ := 1 / 2 ^ 1075

theorem halfUnit_pos : 0 < halfUnit := by
  unfold halfUnit
  positivity

theorem two_mul_halfUnit : 2 * halfUnit = 1 / 2 ^ 1074 := by
  have hpow : (2 : ℚ) ^ (1074 + 1) = 2 ^ 1074 * 2 := pow_succ _ _
  unfold halfUnit
  rw [hpow, mul_one_div, mul_comm, div_mul_cancel_left₀ two_ne_zero, one_div]

theorem IsDoubleNearest.abs_sub_le {negative : Bool} {v : ℚ} {y : Binary64}
    (h : IsDoubleNearest negative v y) (hv : 0 ≤ v) :
    |y.magnitude - v| ≤ v / 2 ^ 53 + halfUnit := by
  rw [abs_sub_comm, add_comm]
  exact h.close.trans (max_le_add_of_nonneg halfUnit_pos.le (by positivity))

/-- Whole numbers are too large to lose bits. -/
theorem ofNat_close (h : (n : ℚ) < magnitudeEnd) : |(ofNat n).magnitude - n| ≤ n / 2 ^ 53 := by
  rcases n.eq_zero_or_pos with rfl | hpos
  · rw [magnitude_ofNat (by norm_num) ⟨0, 0, (Nat.zero_mul _).symm, Nat.zero_le _⟩]
    norm_num
  · rw [abs_sub_comm]
    refine (isDoubleNearest_ofNat h).close.trans (max_le ?_ le_rfl)
    have hone : (1 : ℚ) ≤ n := by exact_mod_cast hpos
    calc (1 : ℚ) / 2 ^ 1075 ≤ 1 / 2 ^ 53 :=
          one_div_le_one_div_of_le (by positivity) (pow_le_pow_right₀ one_le_two (by norm_num))
      _ ≤ n / 2 ^ 53 := div_le_div_of_nonneg_right hone (by positivity)

end Naturals

section Errors

variable {q v p t r ε a η : ℚ}

/-- A rounding adds a little more than half a last bit to a relative error. -/
theorem close_round (hv : 0 ≤ v) (ha : 0 ≤ a) (hε : ε ≤ 1 / 2 ^ 50) (hq : |q - v| ≤ ε * v + a)
    (hr : |r - q| ≤ q / 2 ^ 53 + η) : |r - v| ≤ (ε + 9 / 2 ^ 56) * v + (2 * a + η) := by
  have hle := (abs_le.mp hq).2
  have hεv : ε * v ≤ 1 / 2 ^ 50 * v := mul_le_mul_of_nonneg_right hε hv
  have htotal : |r - v| ≤ |r - q| + |q - v| := abs_sub_le _ _ _
  linarith

/-- So does a factor that is rounded itself. -/
theorem close_mul (hv : 0 ≤ v) (ht : 0 ≤ t) (hε : ε ≤ 1 / 2 ^ 50) (hq : |q - v| ≤ ε * v)
    (hp : |p - t| ≤ t / 2 ^ 53) : |q * p - v * t| ≤ (ε + 9 / 2 ^ 56) * (v * t) := by
  have hvt := mul_nonneg hv ht
  have hsplit : q * p - v * t = (q - v) * t + (q - v) * (p - t) + v * (p - t) := by ring
  have hfirst : |(q - v) * t| ≤ ε * v * t := by
    rw [abs_mul, abs_of_nonneg ht]
    exact mul_le_mul_of_nonneg_right hq ht
  have hboth : |(q - v) * (p - t)| ≤ ε * v * (t / 2 ^ 53) := by
    rw [abs_mul]
    exact mul_le_mul hq hp (abs_nonneg _) ((abs_nonneg _).trans hq)
  have hlast : |v * (p - t)| ≤ v * (t / 2 ^ 53) := by
    rw [abs_mul, abs_of_nonneg hv]
    exact mul_le_mul_of_nonneg_left hp hv
  have hεvt : ε * (v * t) ≤ 1 / 2 ^ 50 * (v * t) := mul_le_mul_of_nonneg_right hε hvt
  rw [hsplit]
  have htotal := abs_add_three ((q - v) * t) ((q - v) * (p - t)) (v * (p - t))
  linarith

/-- So does a divisor that is rounded itself. -/
theorem close_div (hv : 0 ≤ v) (ht : 0 < t) (ha : 0 ≤ a) (hε : ε ≤ 1 / 2 ^ 50)
    (hq : |q - v| ≤ ε * v + a) (hp : |p - t| ≤ t / 2 ^ 53) :
    |q / p - v / t| ≤ (ε + 9 / 2 ^ 56) * (v / t) + 2 * a / t := by
  have hlow : t * (1 - 1 / 2 ^ 53) ≤ p := by linarith [(abs_le.mp hp).1]
  have hpos : 0 < p := (mul_pos ht (by norm_num)).trans_le hlow
  have hsplit : q / p - v / t = ((q - v) * t + v * (t - p)) / (p * t) := by
    field_simp
    ring
  have hnum : |(q - v) * t + v * (t - p)| ≤ ((ε + 1 / 2 ^ 53) * v + a) * t := by
    have hfirst : |(q - v) * t| ≤ (ε * v + a) * t := by
      rw [abs_mul, abs_of_pos ht]
      exact mul_le_mul_of_nonneg_right hq ht.le
    have hlast : |v * (t - p)| ≤ v * (t / 2 ^ 53) := by
      rw [abs_mul, abs_of_nonneg hv, abs_sub_comm]
      exact mul_le_mul_of_nonneg_left hp hv
    linarith [abs_add_le ((q - v) * t) (v * (t - p))]
  have hden : |p * t| = p * t := abs_of_pos (mul_pos hpos ht)
  have hbound : (ε + 1 / 2 ^ 53) * v + a ≤ ((ε + 9 / 2 ^ 56) * v + 2 * a) * (1 - 1 / 2 ^ 53) := by
    have hεv : ε * v ≤ 1 / 2 ^ 50 * v := mul_le_mul_of_nonneg_right hε hv
    linarith
  have hnonneg : 0 ≤ (ε + 9 / 2 ^ 56) * v + 2 * a := by
    have := (abs_nonneg _).trans hq
    linarith [mul_nonneg (by norm_num : (0 : ℚ) ≤ 9 / 2 ^ 56) hv]
  rw [hsplit, abs_div, hden, div_le_iff₀ (mul_pos hpos ht)]
  calc |(q - v) * t + v * (t - p)| ≤ ((ε + 1 / 2 ^ 53) * v + a) * t := hnum
    _ ≤ ((ε + 9 / 2 ^ 56) * v + 2 * a) * (1 - 1 / 2 ^ 53) * t :=
      mul_le_mul_of_nonneg_right hbound ht.le
    _ = ((ε + 9 / 2 ^ 56) * v + 2 * a) * (t * (1 - 1 / 2 ^ 53)) := by ring
    _ ≤ ((ε + 9 / 2 ^ 56) * v + 2 * a) * p := mul_le_mul_of_nonneg_left hlow hnonneg
    _ = ((ε + 9 / 2 ^ 56) * (v / t) + 2 * a / t) * (p * t) := by
      field_simp

end Errors

section Powers

variable {n : ℕ} {x : Binary64}

theorem pow_ten_lt_end {e : ℕ} (he : e ≤ decimalMax) : ((10 ^ e : ℕ) : ℚ) < magnitudeEnd := by
  have hpow : (10 : ℚ) ^ e ≤ 10 ^ 308 := pow_le_pow_right₀ (by norm_num) he
  rw [Nat.cast_pow, Nat.cast_ofNat]
  exact hpow.trans_lt lt_magnitudeEnd

theorem pow_ten_close {e : ℕ} (he : e ≤ decimalMax) :
    |(ofNat (10 ^ e)).magnitude - 10 ^ e| ≤ 10 ^ e / 2 ^ 53 := by
  have hclose := ofNat_close (pow_ten_lt_end he)
  rwa [Nat.cast_pow, Nat.cast_ofNat] at hclose

theorem isMagnitude_pow_ten {e : ℕ} (he : e ≤ decimalMax) : (ofNat (10 ^ e)).IsMagnitude :=
  (isDoubleNearest_ofNat (pow_ten_lt_end he)).isMagnitude

theorem scaledByTen_ofNat {e : ℕ} (he : e ≤ decimalMax) (x : Binary64) :
    x.scaledByTen (e : ℤ) = x * ofNat (10 ^ e) := by
  rw [← Int.ofNat_eq_natCast]
  unfold scaledByTen
  dsimp only
  rw [if_pos he]

theorem scaledByTen_negSucc {e : ℕ} (he : e + 1 ≤ decimalMax) (x : Binary64) :
    x.scaledByTen (.negSucc e) = x / ofNat (10 ^ (e + 1)) := by
  unfold scaledByTen
  dsimp only
  rw [if_pos (Nat.lt_of_succ_le he)]

/-- A division by a power of ten is exact but for two roundings. -/
theorem div_pow_ten_close {v ε a : ℚ} (hx : x.IsMagnitude) (hv : 0 ≤ v) (ha : 0 ≤ a)
    (hε : ε ≤ 1 / 2 ^ 51) (hclose : |x.magnitude - v| ≤ ε * v + a) {e : ℕ} (hpos : 1 ≤ e)
    (he : e ≤ decimalMax) : (x / ofNat (10 ^ e)).IsMagnitude ∧
      |(x / ofNat (10 ^ e)).magnitude - v / 10 ^ e| ≤
        (ε + 18 / 2 ^ 56) * (v / 10 ^ e) + (2 * (2 * a / 10 ^ e) + halfUnit) := by
  have hten : (10 : ℚ) ≤ 10 ^ e := le_self_pow₀ (by norm_num) (by omega)
  have hpower := pow_ten_close he
  have hone : 1 ≤ (ofNat (10 ^ e)).magnitude := by linarith [(abs_le.mp hpower).1]
  have hnearest := isDoubleNearest_div hx (isMagnitude_pow_ten he) hone
  have hquotient := close_div hv (by linarith) ha (by linarith) hclose hpower
  have hnonneg := div_nonneg x.magnitude_nonneg (one_pos.le.trans hone)
  have hround := close_round (div_nonneg hv (by linarith)) (div_nonneg (by linarith) (by linarith))
    (by linarith) hquotient (hnearest.abs_sub_le hnonneg)
  refine ⟨hnearest.isMagnitude, hround.trans_eq ?_⟩
  ring

/-- Powers that are no doubles are too large for words. -/
theorem lt_word_mul {e : ℕ} (hne : n ≠ 0) (he : decimalMax < e) :
    magnitudeEnd < (n * 10 ^ e : ℚ) := by
  have hone : (1 : ℚ) ≤ n := by exact_mod_cast Nat.pos_of_ne_zero hne
  calc magnitudeEnd < 10 ^ 309 := magnitudeEnd_lt
    _ ≤ 10 ^ e := pow_le_pow_right₀ (by norm_num) he
    _ ≤ n * 10 ^ e := le_mul_of_one_le_left (by positivity) hone

section Words

variable (hn : n < 2 ^ wordBits)

include hn

theorem isMagnitude_word : (ofNat n).IsMagnitude :=
  (isDoubleNearest_ofNat (lt_end_of_lt (wide_of_word hn))).isMagnitude

theorem word_close : |(ofNat n).magnitude - n| ≤ 1 / 2 ^ 53 * n := by
  rw [one_div_mul_eq_div]
  exact ofNat_close (lt_end_of_lt (wide_of_word hn))

theorem scaled_up {e : ℕ} (he : e ≤ decimalMax) :
    ((ofNat n * ofNat (10 ^ e)).IsMagnitude ∧
      |(ofNat n * ofNat (10 ^ e)).magnitude - n * 10 ^ e| ≤
        26 / 2 ^ 56 * (n * 10 ^ e) + halfUnit) ∨
    (ofNat n * ofNat (10 ^ e)).isFinite = false ∧
      magnitudeEnd ≤ n * 10 ^ e * (1 + 1 / 2 ^ 51) := by
  have hv : (0 : ℚ) ≤ n * 10 ^ e := by positivity
  have hproduct : |(ofNat n).magnitude * (ofNat (10 ^ e)).magnitude - n * 10 ^ e| ≤
      17 / 2 ^ 56 * (n * 10 ^ e) + 0 := by
    have hmul := close_mul (Nat.cast_nonneg n) (by positivity) (by norm_num) (word_close hn)
      (pow_ten_close he)
    linarith
  rcases mul_cases (isMagnitude_word hn) (isMagnitude_pow_ten he) with hnearest | ⟨hend, hinfinite⟩
  · refine Or.inl ⟨hnearest.isMagnitude, ?_⟩
    have hround := close_round hv le_rfl (by norm_num) hproduct
      (hnearest.abs_sub_le (mul_nonneg (magnitude_nonneg _) (magnitude_nonneg _)))
    refine hround.trans_eq ?_
    ring
  · refine Or.inr ⟨hinfinite, ?_⟩
    have hle := hend.trans (sub_le_iff_le_add.mp (abs_le.mp hproduct).2)
    generalize (n * 10 ^ e : ℚ) = w at *
    linarith

theorem scaled_down {e : ℕ} (hpos : 1 ≤ e) (he : e ≤ decimalMax) :
    (ofNat n / ofNat (10 ^ e)).IsMagnitude ∧
      |(ofNat n / ofNat (10 ^ e)).magnitude - n / 10 ^ e| ≤
        26 / 2 ^ 56 * (n / 10 ^ e) + halfUnit := by
  have hclose : |(ofNat n).magnitude - n| ≤ 1 / 2 ^ 53 * n + 0 := by
    rw [add_zero]
    exact word_close hn
  obtain ⟨hmagnitude, hdown⟩ := div_pow_ten_close (isMagnitude_word hn) (Nat.cast_nonneg n) le_rfl
    (by norm_num) hclose hpos he
  refine ⟨hmagnitude, hdown.trans_eq ?_⟩
  ring

theorem scaled_down_twice {e : ℕ} (hpos : 1 ≤ e) (he : e ≤ decimalMax) :
    (ofNat n / ofNat (10 ^ decimalMax) / ofNat (10 ^ e)).IsMagnitude ∧
      |(ofNat n / ofNat (10 ^ decimalMax) / ofNat (10 ^ e)).magnitude -
          n / 10 ^ (decimalMax + e)| ≤
        44 / 2 ^ 56 * (n / 10 ^ (decimalMax + e)) + 2 * halfUnit := by
  obtain ⟨hmagnitude, hdown⟩ := scaled_down hn (by decide) le_rfl
  obtain ⟨htwice, hclose⟩ := div_pow_ten_close hmagnitude (by positivity) halfUnit_pos.le
    (by norm_num) hdown hpos he
  rw [div_div, ← pow_add] at hclose
  refine ⟨htwice, hclose.trans ?_⟩
  have hten : (10 : ℚ) ≤ 10 ^ e := le_self_pow₀ (by norm_num) (by omega)
  have hlost : 2 * (2 * halfUnit / 10 ^ e) ≤ halfUnit := by
    have hhalf := halfUnit_pos
    rw [← mul_div_assoc, div_le_iff₀ (by linarith)]
    nlinarith
  generalize (n / 10 ^ (decimalMax + e) : ℚ) = w at *
  linarith

/-- Words are too small for powers that take more than two divisions. -/
theorem word_div_le_halfUnit {e : ℕ} (he : 2 * decimalMax < e) : (n / 10 ^ e : ℚ) ≤ halfUnit := by
  have hword : (n : ℚ) ≤ 2 ^ 64 := by exact_mod_cast hn.le
  have hpow : (2 : ℚ) ^ (64 + 1075) ≤ 10 ^ e := by
    calc (2 : ℚ) ^ (64 + 1075) ≤ 2 ^ (3 * e) :=
          pow_le_pow_right₀ one_le_two (by unfold decimalMax at he; omega)
      _ = (2 ^ 3) ^ e := pow_mul _ _ _
      _ ≤ 10 ^ e := pow_le_pow_left₀ (by norm_num) (by norm_num) e
  unfold halfUnit
  rw [div_le_div_iff₀ (by positivity) (by positivity), one_mul]
  calc (n : ℚ) * 2 ^ 1075 ≤ 2 ^ 64 * 2 ^ 1075 := mul_le_mul_of_nonneg_right hword (by positivity)
    _ ≤ 10 ^ e := by rwa [← pow_add]

/-- A word that is scaled by a power of ten is off by less than a relative error of `2 ^ (-50)` and
the least positive double, unless with such an error it is beyond what doubles hold. -/
theorem scaledByTen_cases (e : ℤ) :
    (((ofNat n).scaledByTen e).IsMagnitude ∧
      |((ofNat n).scaledByTen e).magnitude - n * 10 ^ e| ≤
        44 / 2 ^ 56 * (n * 10 ^ e) + 2 * halfUnit) ∨
    ((ofNat n).scaledByTen e).isFinite = false ∧
      magnitudeEnd ≤ n * 10 ^ e * (1 + 1 / 2 ^ 51) := by
  have hhalf := halfUnit_pos
  have hweaken {r w : ℚ} (hw : 0 ≤ w) (h : |r - w| ≤ 26 / 2 ^ 56 * w + halfUnit) :
      |r - w| ≤ 44 / 2 ^ 56 * w + 2 * halfUnit := by linarith
  cases e with
  | ofNat e =>
    rw [Int.ofNat_eq_natCast, zpow_natCast]
    unfold scaledByTen
    dsimp only
    split_ifs with he hzero
    · rcases scaled_up hn he with ⟨hmagnitude, hclose⟩ | hinfinite
      · exact Or.inl ⟨hmagnitude, hweaken (by positivity) hclose⟩
      · exact Or.inr hinfinite
    · obtain rfl : n = 0 := by
        by_contra hne
        have hpos := units_ofNat_pos (Nat.pos_of_ne_zero hne) (wide_of_word hn)
        rw [isZero_eq_false_iff.mpr hpos] at hzero
        cases hzero
      refine Or.inl ⟨isMagnitude_word hn, ?_⟩
      rw [magnitude_ofNat (by norm_num) ⟨0, 0, (Nat.zero_mul _).symm, Nat.zero_le _⟩]
      simpa using hhalf.le
    · have hne : n ≠ 0 := by
        rintro rfl
        exact hzero (by decide +kernel)
      refine Or.inr ⟨rfl, (lt_word_mul hne (not_le.mp he)).le.trans ?_⟩
      exact le_mul_of_one_le_right (by positivity) (by norm_num)
  | negSucc e =>
    rw [zpow_negSucc, ← div_eq_mul_inv]
    unfold scaledByTen
    dsimp only
    split_ifs with he htwice
    · obtain ⟨hmagnitude, hclose⟩ := scaled_down hn (Nat.succ_pos e) he
      exact Or.inl ⟨hmagnitude, hweaken (by positivity) hclose⟩
    · have hsplit : decimalMax + (e + 1 - decimalMax) = e + 1 := by omega
      have hclose := scaled_down_twice hn (e := e + 1 - decimalMax) (by omega) (by omega)
      rw [hsplit] at hclose
      exact Or.inl hclose
    · have hsmall := word_div_le_halfUnit hn (e := e + 1) (by omega)
      have hnonneg : (0 : ℚ) ≤ n / 10 ^ (e + 1) := by positivity
      have hzero : zero.magnitude = 0 := by simp [magnitude, magnitudeOf, zero, signedZero, units]
      refine Or.inl ⟨⟨rfl, rfl⟩, ?_⟩
      rw [hzero, zero_sub, abs_neg, abs_of_nonneg hnonneg]
      linarith

end Words

theorem fitsBits_pow_ten {e : ℕ} (he : e ≤ 22) : FitsBits (10 ^ e) := by
  refine ⟨5 ^ e, e, by rw [← Nat.mul_pow], ?_⟩
  exact (Nat.pow_le_pow_right (by norm_num) he).trans (by norm_num)

theorem magnitude_pow_ten {e : ℕ} (he : e ≤ 22) : (ofNat (10 ^ e)).magnitude = 10 ^ e := by
  have hpow : 10 ^ e ≤ 10 ^ 22 := Nat.pow_le_pow_right (by norm_num) he
  rw [magnitude_ofNat (hpow.trans_lt (by norm_num)) (fitsBits_pow_ten he), Nat.cast_pow,
    Nat.cast_ofNat]

/-- Where number and power are doubles, the result is the nearest one. -/
theorem scaledByTen_nearest (hn : n ≤ 2 ^ 53) {e : ℤ} (he : |e| ≤ 22) :
    IsDoubleNearest false (n * 10 ^ e) ((ofNat n).scaledByTen e) := by
  have hwide : n < 2 ^ 128 := hn.trans_lt (by norm_num)
  have hmagnitude := (isDoubleNearest_ofNat (lt_end_of_lt hwide)).isMagnitude
  have hvalue : (ofNat n).magnitude = n :=
    magnitude_ofNat hwide ⟨n, 0, (Nat.mul_one n).symm, hn⟩
  have hmax : 22 ≤ decimalMax := by decide
  cases e with
  | ofNat e =>
    have he : e ≤ 22 := by simpa using he
    have hpower := magnitude_pow_ten he
    rw [Int.ofNat_eq_natCast, scaledByTen_ofNat (he.trans hmax), zpow_natCast, ← hvalue, ← hpower]
    rcases mul_cases hmagnitude (isMagnitude_pow_ten (he.trans hmax)) with hnearest | ⟨hend, -⟩
    · rwa [hvalue] at hnearest ⊢
    · rw [hvalue, hpower] at hend
      have hlt : n * 10 ^ e < 2 ^ 128 := by
        calc n * 10 ^ e ≤ 2 ^ 53 * 10 ^ 22 :=
              Nat.mul_le_mul hn (Nat.pow_le_pow_right (by norm_num) he)
          _ < 2 ^ 128 := by norm_num
      have hsmall := lt_end_of_lt hlt
      rw [Nat.cast_mul, Nat.cast_pow, Nat.cast_ofNat] at hsmall
      exact absurd hend (not_le.mpr hsmall)
  | negSucc e =>
    have he : e + 1 ≤ 22 := by
      rw [Int.negSucc_eq, abs_neg, abs_of_nonneg (by positivity)] at he
      exact_mod_cast he
    have hpower := magnitude_pow_ten he
    have hone : 1 ≤ (ofNat (10 ^ (e + 1))).magnitude := by
      rw [hpower]
      exact one_le_pow₀ (by norm_num)
    have hnearest := isDoubleNearest_div hmagnitude (isMagnitude_pow_ten (he.trans hmax)) hone
    rw [scaledByTen_negSucc (he.trans hmax), zpow_negSucc, ← div_eq_mul_inv, ← hpower]
    rwa [hvalue] at hnearest

/-- A word that is not scaled is rounded once. -/
theorem scaledByTen_zero (hn : n < 2 ^ wordBits) :
    IsDoubleNearest false n ((ofNat n).scaledByTen 0) := by
  have hnearest := isDoubleNearest_ofNat (lt_end_of_lt (wide_of_word hn))
  have hone : (ofNat (10 ^ 0)).magnitude = 1 := by
    rw [magnitude_pow_ten (Nat.zero_le 22), pow_zero]
  have hpower : (ofNat (10 ^ 0)).IsMagnitude := isMagnitude_pow_ten (Nat.zero_le _)
  rw [← Int.ofNat_zero, scaledByTen_ofNat (Nat.zero_le _)]
  rcases mul_cases hnearest.isMagnitude hpower with hproduct | ⟨hend, -⟩
  · rw [hone, mul_one] at hproduct
    have hvalue := hproduct.magnitude_eq
    exact ⟨hproduct.finite, hproduct.sign, by rw [hvalue]; exact hnearest.nearest,
      by rw [hvalue]; exact hnearest.close⟩
  · rw [hone, mul_one] at hend
    exact absurd hend (not_le.mpr (magnitude_lt_end hnearest.finite))

end Powers

theorem IsDoubleNearest.neg {v : ℚ} {y : Binary64} (h : IsDoubleNearest false v y) :
    IsDoubleNearest true v (-y) :=
  ⟨h.finite, congrArg not h.sign, h.nearest, h.close⟩

end Binary64

end ClusterBench
