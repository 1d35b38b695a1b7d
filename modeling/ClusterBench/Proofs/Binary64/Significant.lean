import ClusterBench.Binary64.Decimal
import ClusterBench.Proofs.Binary64.Nearest

/-!
# Significant digits

`significant count` gives the decimal with `count + 1` digits that is nearest to a magnitude, also
when rounding carries into the next decade. It gives the same decimal back for every magnitude that
is within a twentieth of a last digit of it.
-/

namespace ClusterBench

theorem lt_pow_digitCount (n : ℕ) : n < 10 ^ digitCount n := by
  induction n using digitCount.induct with
  | case1 => simp [digitCount]
  | case2 n hn ih =>
    rw [digitCount, dif_neg hn, pow_add, pow_one]
    omega

theorem pow_digitCount_le {n : ℕ} (hn : n ≠ 0) : 10 ^ (digitCount n - 1) ≤ n := by
  induction n using digitCount.induct with
  | case1 => exact absurd rfl hn
  | case2 n h ih =>
    rw [digitCount, dif_neg h, Nat.add_sub_cancel_left]
    by_cases hten : n / 10 = 0
    · rw [hten]
      simpa [digitCount] using Nat.one_le_iff_ne_zero.mpr hn
    · have hpos : digitCount (n / 10) ≠ 0 := by
        rw [digitCount, dif_neg hten]
        omega
      have hpow : 10 ^ digitCount (n / 10) = 10 ^ (digitCount (n / 10) - 1) * 10 := by
        rw [← pow_succ, Nat.sub_add_cancel (Nat.one_le_iff_ne_zero.mpr hpos)]
      have := ih hten
      omega

theorem digitCount_eq {n count : ℕ} (hlow : 10 ^ count ≤ n) (hhigh : n < 10 ^ (count + 1)) :
    digitCount n = count + 1 := by
  have hn : n ≠ 0 := by
    have : 0 < 10 ^ count := by positivity
    omega
  have h₁ : count < digitCount n :=
    (Nat.pow_lt_pow_iff_right (by norm_num)).mp (hlow.trans_lt (lt_pow_digitCount n))
  have h₂ : digitCount n - 1 < count + 1 :=
    (Nat.pow_lt_pow_iff_right (by norm_num)).mp ((pow_digitCount_le hn).trans_lt hhigh)
  omega

theorem digitCount_pos {n : ℕ} (hn : n ≠ 0) : 0 < digitCount n := by
  rw [digitCount, dif_neg hn]
  omega

/-- Rounded up and less one, a quotient counts the factors that do not reach the dividend. -/
theorem le_ceilDiv_sub_one_iff {a b : ℕ} (ha : 0 < a) (hb : 0 < b) (n : ℕ) :
    n ≤ (a + b - 1) / b - 1 ↔ n * b < a := by
  have hone : 1 ≤ (a + b - 1) / b := (Nat.le_div_iff_mul_le hb).mpr (by omega)
  have hsucc : n ≤ (a + b - 1) / b - 1 ↔ n + 1 ≤ (a + b - 1) / b := by omega
  rw [hsucc, Nat.le_div_iff_mul_le hb, Nat.add_mul, Nat.one_mul]
  omega

namespace Binary64

def magnitudeOf (units : ℕ) : ℚ := units / 2 ^ unitBits

def magnitude (x : Binary64) : ℚ := magnitudeOf x.units

/-- Two decades that share a number are the same. -/
theorem decade_unique {v : ℚ} {a b : ℤ} (ha : (10 : ℚ) ^ a ≤ v ∧ v < 10 ^ (a + 1))
    (hb : (10 : ℚ) ^ b ≤ v ∧ v < 10 ^ (b + 1)) : a = b := by
  have h₁ : a < b + 1 := (zpow_lt_zpow_iff_right₀ (by norm_num)).mp (ha.1.trans_lt hb.2)
  have h₂ : b < a + 1 := (zpow_lt_zpow_iff_right₀ (by norm_num)).mp (hb.1.trans_lt ha.2)
  omega

/-- From one on, the first digit is found by counting the digits of the whole part. -/
theorem decade_of_one_le {units : ℕ} (hle : 2 ^ unitBits ≤ units) :
    (10 : ℚ) ^ ((digitCount (units / 2 ^ unitBits) : ℤ) - 1) ≤ magnitudeOf units ∧
      magnitudeOf units < 10 ^ ((digitCount (units / 2 ^ unitBits) : ℤ) - 1 + 1) := by
  have hone : (0 : ℚ) < 2 ^ unitBits := by positivity
  have hwhole : units / 2 ^ unitBits ≠ 0 := (Nat.div_pos hle (by positivity)).ne'
  have hlow := pow_digitCount_le hwhole
  have hhigh := lt_pow_digitCount (units / 2 ^ unitBits)
  have hcount := digitCount_pos hwhole
  generalize digitCount (units / 2 ^ unitBits) = c at *
  have hexp : (c : ℤ) - 1 = ((c - 1 : ℕ) : ℤ) := by omega
  rw [sub_add_cancel, hexp, zpow_natCast, zpow_natCast, magnitudeOf, le_div_iff₀ hone,
    div_lt_iff₀ hone]
  constructor
  · exact_mod_cast (Nat.le_div_iff_mul_le (by positivity)).mp hlow
  · exact_mod_cast (Nat.div_lt_iff_lt_mul (by positivity)).mp hhigh

/-- Below one, the first digit is found by counting the digits of the reciprocal. -/
theorem decade_of_lt_one {units : ℕ} (h : 0 < units) (hlt : units < 2 ^ unitBits) :
    let count := digitCount ((2 ^ unitBits + units - 1) / units - 1)
    (10 : ℚ) ^ (-(count : ℤ)) ≤ magnitudeOf units ∧
      magnitudeOf units < 10 ^ (-(count : ℤ) + 1) := by
  intro count
  have hunits : (0 : ℚ) < units := by exact_mod_cast h
  have hone : (0 : ℚ) < 2 ^ unitBits := by positivity
  have hreach := le_ceilDiv_sub_one_iff (Nat.two_pow_pos unitBits) h
  have hinverse : (2 ^ unitBits + units - 1) / units - 1 ≠ 0 := by
    have := (hreach 1).mpr (by omega)
    omega
  have hupper := (hreach _).mp (pow_digitCount_le hinverse)
  have hlower := (not_congr (hreach _)).mp (lt_pow_digitCount _).not_ge
  have hcount : 0 < count := digitCount_pos hinverse
  change 10 ^ (count - 1) * units < 2 ^ unitBits at hupper
  change ¬ 10 ^ count * units < 2 ^ unitBits at hlower
  rw [not_lt] at hlower
  constructor
  · rw [zpow_neg, zpow_natCast, magnitudeOf, inv_le_iff_one_le_mul₀ (by positivity),
      div_mul_eq_mul_div, one_le_div hone, mul_comm]
    exact_mod_cast hlower
  · have hexp : -(count : ℤ) + 1 = -((count - 1 : ℕ) : ℤ) := by omega
    rw [hexp, zpow_neg, zpow_natCast, magnitudeOf, div_lt_iff₀ hone, inv_mul_eq_div,
      lt_div_iff₀ (by positivity), mul_comm]
    exact_mod_cast hupper

theorem decimalExponent_decade {units : ℕ} (h : 0 < units) :
    (10 : ℚ) ^ decimalExponent units ≤ magnitudeOf units ∧
      magnitudeOf units < 10 ^ (decimalExponent units + 1) := by
  unfold decimalExponent
  by_cases hle : 2 ^ unitBits ≤ units
  · rw [if_pos hle]
    exact decade_of_one_le hle
  · rw [if_neg hle]
    exact decade_of_lt_one h (Nat.lt_of_not_le hle)

theorem stepQuotient_den_pos (units : ℕ) (step : ℤ) : 0 < (stepQuotient units step).2 := by
  cases step <;> simp [stepQuotient]

theorem stepQuotient_eq (units : ℕ) (step : ℤ) :
    ((stepQuotient units step).1 / (stepQuotient units step).2 : ℚ) =
      magnitudeOf units / 10 ^ step := by
  cases step with
  | ofNat e =>
    simp only [stepQuotient, magnitudeOf, Int.ofNat_eq_natCast, zpow_natCast]
    push_cast
    rw [div_div]
  | negSucc e =>
    simp only [stepQuotient, magnitudeOf, zpow_negSucc]
    push_cast
    rw [div_inv_eq_mul, mul_div_right_comm]

section Decade

variable {v : ℚ} {count m : ℕ} {e : ℤ}

theorem isNearest_of_near (hnear : |v - m * 10 ^ e| < 10 ^ e / 20) : IsNearest m (v / 10 ^ e) := by
  have hstep : (0 : ℚ) < 10 ^ e := by positivity
  apply IsNearest.of_lt
  rw [div_sub' hstep.ne', abs_div, abs_of_pos hstep, div_lt_iff₀ hstep, mul_comm _ (m : ℚ)]
  linarith

/-- Below a power of ten the next finer step carries to it. -/
theorem isNearest_of_near_below (hnear : |v - (10 ^ count : ℕ) * 10 ^ e| < 10 ^ e / 20)
    (hbelow : v < 10 ^ count * 10 ^ e) : IsNearest (10 ^ (count + 1)) (v / 10 ^ (e - 1)) := by
  have hprev : (10 : ℚ) ^ e = 10 ^ (e - 1) * 10 := by
    rw [← zpow_add_one₀ (by norm_num), sub_add_cancel]
  have hpos : (0 : ℚ) < 10 ^ (e - 1) := by positivity
  have hleft := (abs_lt.mp hnear).1
  apply IsNearest.of_lt
  rw [div_sub' hpos.ne', abs_div, abs_of_pos hpos, div_lt_iff₀ hpos, abs_lt]
  push_cast at hleft ⊢
  rw [hprev] at hleft hbelow
  rw [pow_succ]
  constructor <;> linarith

theorem isNearest_in_decade (hm : IsNearest m v) (hlow : 10 ^ count ≤ v)
    (hhigh : v < 10 ^ (count + 1)) :
    10 ^ count ≤ m ∧ m ≤ 10 ^ (count + 1) ∧
      (m = 10 ^ (count + 1) → IsNearest (10 ^ count) (v / 10)) := by
  obtain ⟨hleft, hright⟩ := abs_le.mp hm.close
  refine ⟨?_, ?_, fun hcarry => ?_⟩
  · by_contra! hlt
    have hstep : (m : ℚ) + 1 ≤ 10 ^ count := by exact_mod_cast hlt
    linarith
  · by_contra! hlt
    have hstep : (10 : ℚ) ^ (count + 1) + 1 ≤ m := by exact_mod_cast hlt
    linarith
  · rw [hcarry] at hleft
    push_cast at hleft
    rw [pow_succ] at hleft hhigh
    apply IsNearest.of_lt
    rw [abs_lt]
    push_cast
    constructor <;> linarith

/-- A number near a decimal lies in the decade of the decimal, or below a power of ten. -/
theorem decade_of_near (hlow : 10 ^ count ≤ m) (hhigh : m < 10 ^ (count + 1))
    (hnear : |v - m * 10 ^ e| < 10 ^ e / 20) :
    ((10 : ℚ) ^ (e + count) ≤ v ∧ v < 10 ^ (e + count + 1)) ∨
      (m = 10 ^ count ∧ (10 : ℚ) ^ (e + count - 1) ≤ v ∧ v < 10 ^ (e + count)) := by
  have hstep : (0 : ℚ) < 10 ^ e := by positivity
  have hpow : (10 : ℚ) ^ (e + count) = 10 ^ count * 10 ^ e := by
    rw [zpow_add₀ (by norm_num), zpow_natCast, mul_comm]
  have hnext : (10 : ℚ) ^ (e + count + 1) = 10 ^ (count + 1) * 10 ^ e := by
    rw [zpow_add_one₀ (by norm_num), hpow, pow_succ]
    ring
  obtain ⟨hleft, hright⟩ := abs_lt.mp hnear
  have hhigh' : ((m : ℚ) + 1) * 10 ^ e ≤ 10 ^ (count + 1) * 10 ^ e :=
    mul_le_mul_of_nonneg_right (by exact_mod_cast hhigh) hstep.le
  by_cases hge : (10 : ℚ) ^ (e + count) ≤ v
  · refine Or.inl ⟨hge, ?_⟩
    rw [hnext]
    linarith
  · refine Or.inr ⟨?_, ?_, lt_of_not_ge hge⟩
    · by_contra hne
      have hsucc : 10 ^ count + 1 ≤ m := by omega
      have hmul : ((10 : ℚ) ^ count + 1) * 10 ^ e ≤ m * 10 ^ e :=
        mul_le_mul_of_nonneg_right (by exact_mod_cast hsucc) hstep.le
      rw [hpow] at hge
      linarith
    · have hprev : (10 : ℚ) ^ (e + count - 1) * 10 = 10 ^ count * 10 ^ e := by
        rw [← zpow_add_one₀ (by norm_num), sub_add_cancel, hpow]
      have hone : 1 * (10 : ℚ) ^ e ≤ 10 ^ count * 10 ^ e :=
        mul_le_mul_of_nonneg_right (one_le_pow₀ (by norm_num)) hstep.le
      have hmul : (10 : ℚ) ^ count * 10 ^ e ≤ m * 10 ^ e :=
        mul_le_mul_of_nonneg_right (by exact_mod_cast hlow) hstep.le
      linarith

end Decade

/-- Every magnitude near a decimal with `count + 1` digits is rounded to this decimal. -/
theorem significant_eq {count units m : ℕ} {e : ℤ} (hunits : 0 < units) (hlow : 10 ^ count ≤ m)
    (hhigh : m < 10 ^ (count + 1))
    (hnear : |magnitudeOf units - m * 10 ^ e| < 10 ^ e / 20) :
    significant count units = ⟨m, e⟩ := by
  have hdecade := decimalExponent_decade hunits
  unfold significant
  dsimp only
  rcases decade_of_near hlow hhigh hnear with hin | ⟨rfl, hbelow⟩
  · have hexp : decimalExponent units - count = e := by
      rw [decade_unique hdecade hin]
      omega
    have hnearest := isNearest_of_near hnear
    rw [← stepQuotient_eq] at hnearest
    rw [hexp, roundHalfEven_eq (stepQuotient_den_pos _ _) hnearest, if_neg hhigh.ne]
  · have hexp : decimalExponent units - count = e - 1 := by
      rw [decade_unique hdecade ⟨hbelow.1, by rw [sub_add_cancel]; exact hbelow.2⟩]
      omega
    have hlt := hbelow.2
    rw [zpow_add₀ (by norm_num), zpow_natCast, mul_comm] at hlt
    have hnearest := isNearest_of_near_below hnear hlt
    rw [← stepQuotient_eq] at hnearest
    rw [hexp, roundHalfEven_eq (stepQuotient_den_pos _ _) hnearest, if_pos rfl, sub_add_cancel]

/-- The digits are as many as asked for, and nearest in units of the last one. -/
theorem significant_spec (count : ℕ) {units : ℕ} (hunits : 0 < units) :
    10 ^ count ≤ (significant count units).digits ∧
      (significant count units).digits < 10 ^ (count + 1) ∧
      IsNearest (significant count units).digits
        (magnitudeOf units / 10 ^ (significant count units).exponent) := by
  obtain ⟨hlow, hhigh⟩ := decimalExponent_decade hunits
  have hstep : (0 : ℚ) < 10 ^ (decimalExponent units - (count : ℤ)) := by positivity
  have hpow : (10 : ℚ) ^ decimalExponent units =
      10 ^ count * 10 ^ (decimalExponent units - (count : ℤ)) := by
    rw [← zpow_natCast, ← zpow_add₀ (by norm_num), add_sub_cancel]
  rw [zpow_add_one₀ (by norm_num), hpow, mul_right_comm, ← pow_succ] at hhigh
  rw [hpow, ← le_div_iff₀ hstep] at hlow
  rw [← div_lt_iff₀ hstep] at hhigh
  have hnearest := isNearest_roundHalfEven
    (stepQuotient units (decimalExponent units - count)).1
    (stepQuotient_den_pos units (decimalExponent units - count))
  rw [stepQuotient_eq] at hnearest
  obtain ⟨hmin, hmax, hcarry⟩ := isNearest_in_decade hnearest hlow hhigh
  unfold significant
  dsimp only
  split_ifs with heq
  · refine ⟨le_rfl, Nat.pow_lt_pow_right (by norm_num) (by omega), ?_⟩
    rw [zpow_add_one₀ (by norm_num), ← div_div]
    exact hcarry heq
  · dsimp only
    exact ⟨hmin, Nat.lt_of_le_of_ne hmax heq, hnearest⟩

end Binary64

end ClusterBench
