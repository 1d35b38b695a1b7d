import Mathlib
import ClusterBench.Binary64.Rounding

/-!
# Nearest whole numbers and nearest doubles

`roundHalfEven` gives the whole number nearest to a quotient, which is the only one. The double
that `ofQuotient` gives has the magnitude of no double nearer to the quotient, and misses it by at
most half of its last bit. Quotients are rational numbers here, in units of the least positive
double.
-/

namespace ClusterBench

/-- `n` is nearest to `q`, and even if another number is as near. -/
structure IsNearest (n : ℕ) (q : ℚ) : Prop where
  close : |q - n| ≤ 1 / 2
  even_of_tie : |q - n| = 1 / 2 → Even n

theorem IsNearest.of_lt {n : ℕ} {q : ℚ} (h : |q - n| < 1 / 2) : IsNearest n q :=
  ⟨h.le, fun heq => absurd heq h.ne⟩

theorem IsNearest.unique {m n : ℕ} {q : ℚ} (hm : IsNearest m q) (hn : IsNearest n q) : m = n := by
  wlog hlt : m < n generalizing m n
  · rcases Nat.lt_trichotomy m n with h | h | h
    · exact absurd h hlt
    · exact h
    · exact (this hn hm h).symm
  have hstep : (m : ℚ) + 1 ≤ n := by exact_mod_cast hlt
  obtain ⟨-, hmq⟩ := abs_le.mp hm.close
  obtain ⟨hnq, -⟩ := abs_le.mp hn.close
  -- Both are at distance one half, so both are even; but they are neighbours.
  have hm_tie : |q - m| = 1 / 2 := by rw [abs_of_nonneg (by linarith)]; linarith
  have hn_tie : |q - n| = 1 / 2 := by rw [abs_of_nonpos (by linarith)]; linarith
  have hnext : (n : ℚ) = m + 1 := by linarith
  have hsucc : n = m + 1 := by exact_mod_cast hnext
  have hm_even := hm.even_of_tie hm_tie
  have hn_even := hn.even_of_tie hn_tie
  rw [hsucc, Nat.even_add_one] at hn_even
  exact absurd hm_even hn_even

theorem isNearest_roundHalfEven (num : ℕ) {den : ℕ} (hden : 0 < den) :
    IsNearest (roundHalfEven num den) (num / den) := by
  have hd : (0 : ℚ) < den := by exact_mod_cast hden
  have hsplit : (num : ℚ) / den = (num / den : ℕ) + ((num % den : ℕ) : ℚ) / den := by
    have h : (num : ℚ) = den * (num / den : ℕ) + (num % den : ℕ) := by
      exact_mod_cast (Nat.div_add_mod num den).symm
    field_simp
    linarith
  have hr0 : (0 : ℚ) ≤ ((num % den : ℕ) : ℚ) / den := by positivity
  have hr1 : ((num % den : ℕ) : ℚ) / den < 1 := by
    rw [div_lt_one hd]
    exact_mod_cast Nat.mod_lt num hden
  unfold roundHalfEven
  dsimp only
  split_ifs with hlow hhigh heven
  · have hlow' : ((num % den : ℕ) : ℚ) / den < 1 / 2 := by
      rw [div_lt_div_iff₀ hd two_pos]
      exact_mod_cast (by omega : num % den * 2 < 1 * den)
    apply IsNearest.of_lt
    rw [hsplit, add_sub_cancel_left, abs_of_nonneg hr0]
    exact hlow'
  · have hhigh' : 1 / 2 < ((num % den : ℕ) : ℚ) / den := by
      rw [div_lt_div_iff₀ two_pos hd]
      exact_mod_cast (by omega : 1 * den < num % den * 2)
    apply IsNearest.of_lt
    rw [hsplit, Nat.cast_add, Nat.cast_one, add_sub_add_left_eq_sub, abs_of_nonpos (by linarith)]
    linarith
  all_goals
    have htie : ((num % den : ℕ) : ℚ) / den = 1 / 2 := by
      rw [div_eq_div_iff hd.ne' two_ne_zero]
      exact_mod_cast (by omega : num % den * 2 = 1 * den)
    rw [hsplit, htie]
  · refine ⟨?_, fun _ => Nat.even_iff.mpr heven⟩
    rw [add_sub_cancel_left, abs_of_pos one_half_pos]
  · refine ⟨?_, fun _ => ?_⟩
    · rw [Nat.cast_add, Nat.cast_one, add_sub_add_left_eq_sub]
      norm_num
    · rw [Nat.even_add_one, Nat.even_iff]
      exact heven

theorem roundHalfEven_eq {num den n : ℕ} (hden : 0 < den) (hn : IsNearest n (num / den)) :
    roundHalfEven num den = n :=
  (isNearest_roundHalfEven num hden).unique hn

/-- A number at least as near to `n` as one that is rounded to `n` is rounded to `n` as well. -/
theorem IsNearest.of_closer {n : ℕ} {p q : ℚ} (hn : IsNearest n p) (h : |q - n| ≤ |p - n|) :
    IsNearest n q := by
  refine ⟨h.trans hn.close, fun htie => hn.even_of_tie ?_⟩
  exact le_antisymm hn.close (htie ▸ h)

/-- No whole number is nearer. -/
theorem IsNearest.close_le {n : ℕ} {q : ℚ} (hn : IsNearest n q) (m : ℕ) : |q - n| ≤ |q - m| := by
  by_contra! hlt
  have hm : IsNearest m q := IsNearest.of_lt (hlt.trans_le hn.close)
  rw [hm.unique hn] at hlt
  exact lt_irrefl _ hlt

theorem roundHalfEven_le {num den bound : ℕ} (hden : 0 < den) (h : num ≤ bound * den) :
    roundHalfEven num den ≤ bound := by
  have hn := isNearest_roundHalfEven num hden
  have hq : (num : ℚ) / den ≤ bound := by
    rw [div_le_iff₀ (by exact_mod_cast hden)]
    exact_mod_cast h
  by_contra hlt
  have hstep : (bound : ℚ) + 1 ≤ roundHalfEven num den := by exact_mod_cast Nat.lt_of_not_le hlt
  have hclose := (abs_le.mp hn.close).1
  linarith

namespace Binary64

theorem isZero_eq_false_iff {x : Binary64} : x.isZero = false ↔ 0 < x.units := by
  obtain ⟨s, e, f⟩ := x
  unfold units isZero
  dsimp only
  by_cases he : e.val = 0
  · rw [if_pos he]
    simp [he, Nat.pos_iff_ne_zero]
  · rw [if_neg he]
    exact iff_of_true (by simp [he]) (by positivity)

@[irreducible] def topShift : ℕ := 2045

theorem topShift_eq : topShift = 2045 := by
  unfold topShift
  rfl

theorem pow_topShift : (2 : ℚ) ^ topShift = 2 ^ 971 * 2 ^ unitBits := by
  have h : topShift = 971 + unitBits := topShift_eq
  rw [h, pow_add]

/-- Magnitudes are rounded to infinity from here on, half a last bit behind the greatest one. -/
def overflowStart : ℚ := (2 ^ 53 - 1 / 2) * 2 ^ topShift

theorem units_le {x : Binary64} (hx : x.isFinite) :
    (x.units : ℚ) ≤ (2 ^ 53 - 1) * 2 ^ topShift := by
  obtain ⟨s, e, f⟩ := x
  have he : e.val ≤ 2046 := by
    have h : e.val ≠ 2047 := by simpa [isFinite] using hx
    omega
  have hf := f.isLt
  have hp : 1 ≤ 2 ^ topShift := Nat.one_le_two_pow
  have hunits : units ⟨s, e, f⟩ ≤ (2 ^ 53 - 1) * 2 ^ topShift := by
    unfold units fractionBits
    dsimp only
    split_ifs
    · calc f.val ≤ (2 ^ 53 - 1) * 1 := by omega
        _ ≤ (2 ^ 53 - 1) * 2 ^ topShift := Nat.mul_le_mul_left _ hp
    · have hpow : 2 ^ (e.val - 1) ≤ 2 ^ topShift :=
        Nat.pow_le_pow_right two_pos (by rw [topShift_eq]; omega)
      exact Nat.mul_le_mul (by omega) hpow
  have hcast : (((2 ^ 53 - 1 : ℕ) * 2 ^ topShift : ℕ) : ℚ) = (2 ^ 53 - 1) * 2 ^ topShift := by
    push_cast
    norm_num
  rw [← hcast]
  exact_mod_cast hunits

/-- From a power of two on, the magnitudes of doubles are multiples of a power that is fifty-two
bits lower. -/
theorem dvd_units {x : Binary64} {k : ℕ} (h : 2 ^ (52 + k) ≤ x.units) : 2 ^ k ∣ x.units := by
  obtain ⟨s, e, f⟩ := x
  have hf := f.isLt
  unfold units fractionBits at h ⊢
  dsimp only at h ⊢
  split_ifs at h ⊢ with he
  · have h52 : 2 ^ 52 ≤ 2 ^ (52 + k) := Nat.pow_le_pow_right two_pos (by omega)
    omega
  · apply Dvd.dvd.mul_left
    apply pow_dvd_pow
    by_contra hlt
    have hpow : 2 ^ (e.val - 1) * 2 ≤ 2 ^ k := by
      rw [← pow_succ]
      exact Nat.pow_le_pow_right two_pos (by omega)
    have hbound : (2 ^ 52 + f.val) * 2 ^ (e.val - 1) < 2 ^ 52 * 2 ^ k := by
      calc (2 ^ 52 + f.val) * 2 ^ (e.val - 1) < (2 ^ 52 * 2) * 2 ^ (e.val - 1) :=
            Nat.mul_lt_mul_of_pos_right (by omega) (by positivity)
        _ = 2 ^ 52 * (2 ^ (e.val - 1) * 2) := by ring
        _ ≤ 2 ^ 52 * 2 ^ k := Nat.mul_le_mul_left _ hpow
    rw [pow_add] at h
    omega

/-- The power of two of the last of fifty-three leading bits divides a number that fits them. -/
theorem dvd_of_fits {units m k : ℕ} (h : units = m * 2 ^ k) (hm : m ≤ 2 ^ 53)
    (hpos : units ≠ 0) : 2 ^ (units.log2 - 52) ∣ units := by
  rcases Nat.lt_or_eq_of_le hm with hlt | heq
  · have hunits : units < 2 ^ (53 + k) := by
      rw [h, pow_add]
      exact Nat.mul_lt_mul_of_pos_right hlt (by positivity)
    have hk : units.log2 < 53 + k := (Nat.log2_lt hpos).mpr hunits
    exact (pow_dvd_pow 2 (by omega)).trans (Dvd.intro_left m h.symm)
  · have hk : units = 2 ^ (53 + k) := by rw [h, heq, pow_add]
    rw [hk, Nat.log2_two_pow]
    exact pow_dvd_pow 2 (by omega)

/-- A magnitude of at most fifty-three significant bits is held exactly. -/
theorem units_ofUnits (negative : Bool) {units m k : ℕ} (h : units = m * 2 ^ k)
    (hm : m ≤ 2 ^ 53) (hend : units < 2 ^ (53 + topShift)) :
    (ofUnits negative units).units = units ∧ (ofUnits negative units).isFinite ∧
      (ofUnits negative units).negative = negative := by
  unfold ofUnits fractionBits
  by_cases hsmall : units < 2 ^ 52
  · rw [if_pos hsmall]
    have hmod : units % 4503599627370496 = units := Nat.mod_eq_of_lt hsmall
    simp [ofFields, Binary64.units, isFinite, hmod]
  · rw [if_neg hsmall]
    have hpos : units ≠ 0 := by omega
    have hle : 52 ≤ units.log2 := (Nat.le_log2 hpos).mpr (by omega)
    have hlog : units.log2 < 53 + topShift := (Nat.log2_lt hpos).mpr hend
    have hlow : 2 ^ (units.log2 - 52) * 2 ^ 52 ≤ units := by
      rw [← pow_add, Nat.sub_add_cancel hle]
      exact Nat.log2_self_le hpos
    have hhigh : units < 2 ^ (units.log2 - 52) * 2 ^ 53 := by
      rw [← pow_add, show units.log2 - 52 + 53 = units.log2 + 1 by omega]
      exact Nat.lt_log2_self
    obtain ⟨lead, hlead⟩ := dvd_of_fits h hm hpos
    have hshift : units.log2 - 52 + 1 < 2047 := by rw [topShift_eq] at hlog; omega
    generalize units.log2 - 52 = shift at *
    have hp : 0 < 2 ^ shift := by positivity
    have hlead_low : 2 ^ 52 ≤ lead := by
      rw [hlead] at hlow
      exact Nat.le_of_mul_le_mul_left hlow hp
    have hlead_high : lead < 2 ^ 53 := by
      rw [hlead] at hhigh
      exact Nat.lt_of_mul_lt_mul_left hhigh
    have hfraction : lead % 4503599627370496 = lead - 2 ^ 52 := by omega
    have hexponent : (shift + 1) % 2048 = shift + 1 := Nat.mod_eq_of_lt (by omega)
    dsimp only
    rw [if_pos hshift, hlead, Nat.mul_div_cancel_left lead hp]
    refine ⟨?_, ?_, rfl⟩
    · simp only [Binary64.units, ofFields, Fin.ofNat, hexponent, hfraction]
      rw [if_neg (by omega), Nat.add_sub_cancel, Nat.add_sub_cancel' hlead_low, mul_comm]
    · simp only [isFinite, ofFields, Fin.ofNat, hexponent]
      simpa using (by omega : shift + 1 ≠ 2047)

section Quotient

variable (negative : Bool) {num den : ℕ}

/-- The bits that are kept hold the rounded quotient. -/
theorem rounded_le_of_droppedBits (num : ℕ) {den : ℕ} (hden : 0 < den) :
    roundHalfEven num (den * 2 ^ droppedBits (num / den)) ≤ 2 ^ 53 := by
  apply roundHalfEven_le (by positivity)
  have hlog : num / den < 2 ^ (53 + droppedBits (num / den)) :=
    Nat.lt_log2_self.trans_le
      (Nat.pow_le_pow_right two_pos (by unfold droppedBits fractionBits; omega))
  have hnum : num < 2 ^ (53 + droppedBits (num / den)) * den :=
    (Nat.div_lt_iff_lt_mul hden).mp hlog
  rw [pow_add] at hnum
  calc num ≤ 2 ^ 53 * 2 ^ droppedBits (num / den) * den := hnum.le
    _ = 2 ^ 53 * (den * 2 ^ droppedBits (num / den)) := by ring

/-- Bits are dropped only of quotients that have more than fifty-two others. -/
theorem le_of_droppedBits {num den : ℕ} (hk : droppedBits (num / den) ≠ 0) :
    (2 : ℚ) ^ (52 + droppedBits (num / den)) ≤ num / den := by
  have hlog : 52 + droppedBits (num / den) = (num / den).log2 := by
    unfold droppedBits fractionBits at *
    omega
  have hpos : num / den ≠ 0 := by
    intro h
    simp [h, droppedBits] at hk
  have hfloor : (2 : ℚ) ^ (52 + droppedBits (num / den)) ≤ (num / den : ℕ) := by
    rw [hlog]
    exact_mod_cast Nat.log2_self_le hpos
  exact hfloor.trans Nat.cast_div_le

/-- Dropping bits scales the distances of a quotient. -/
theorem abs_sub_scaled (num : ℕ) {den : ℕ} (hden : 0 < den) (j k : ℕ) :
    |(num / den : ℚ) - (j * 2 ^ k : ℕ)| = |num / (den * 2 ^ k : ℕ) - (j : ℚ)| * 2 ^ k := by
  have hp : (0 : ℚ) < 2 ^ k := by positivity
  have hd : (den : ℚ) ≠ 0 := by exact_mod_cast hden.ne'
  have hfactor : (num / den : ℚ) - (j * 2 ^ k : ℕ) = (num / (den * 2 ^ k : ℕ) - j) * 2 ^ k := by
    push_cast
    field_simp
  rw [hfactor, abs_mul, abs_of_pos hp]

/-- The rounded quotient, with the dropped bits filled up, in units. -/
theorem rounded_close (num : ℕ) {den : ℕ} (hden : 0 < den) :
    |(num / den : ℚ) - (roundHalfEven num (den * 2 ^ droppedBits (num / den)) *
      2 ^ droppedBits (num / den) : ℕ)| ≤ 2 ^ droppedBits (num / den) / 2 := by
  generalize droppedBits (num / den) = k
  have hp : (0 : ℚ) < 2 ^ k := by positivity
  have hn := (isNearest_roundHalfEven num (by positivity : 0 < den * 2 ^ k)).close
  rw [abs_sub_scaled num hden]
  linarith [mul_le_mul_of_nonneg_right hn hp.le]

theorem units_ofQuotient (hden : 0 < den) (hend : (num / den : ℚ) < overflowStart) :
    (ofQuotient negative num den).units =
        roundHalfEven num (den * 2 ^ droppedBits (num / den)) * 2 ^ droppedBits (num / den) ∧
      (ofQuotient negative num den).isFinite ∧
      (ofQuotient negative num den).negative = negative := by
  have hclose := abs_le.mp (rounded_close num hden)
  have hbits := rounded_le_of_droppedBits num hden
  have hp : (0 : ℚ) < 2 ^ topShift := by positivity
  have hk : droppedBits (num / den) ≤ topShift := by
    by_contra! hlt
    have hq : (2 : ℚ) ^ (52 + droppedBits (num / den)) ≤ num / den :=
      le_of_droppedBits (by omega)
    have hpow : (2 : ℚ) ^ (53 + topShift) ≤ 2 ^ (52 + droppedBits (num / den)) :=
      pow_le_pow_right₀ one_le_two (by omega)
    rw [pow_add] at hpow
    unfold overflowStart at hend
    linarith
  unfold ofQuotient
  dsimp only
  apply units_ofUnits negative rfl hbits
  rcases Nat.lt_or_eq_of_le hk with hlt | heq
  · calc _ ≤ 2 ^ 53 * 2 ^ droppedBits (num / den) := Nat.mul_le_mul_right _ hbits
      _ = 2 ^ (53 + droppedBits (num / den)) := by rw [pow_add]
      _ < 2 ^ (53 + topShift) := Nat.pow_lt_pow_right one_lt_two (by omega)
  · rw [heq] at hclose ⊢
    have hlt : ((roundHalfEven num (den * 2 ^ topShift) * 2 ^ topShift : ℕ) : ℚ) <
        (2 ^ (53 + topShift) : ℕ) := by
      unfold overflowStart at hend
      push_cast at hclose ⊢
      rw [pow_add]
      linarith [hclose.1]
    exact_mod_cast hlt

/-- No double is nearer to a quotient than the one that it is rounded to. -/
theorem ofQuotient_nearest (hden : 0 < den) (hend : (num / den : ℚ) < overflowStart)
    (x : Binary64) :
    |(num / den : ℚ) - (ofQuotient negative num den).units| ≤ |(num / den : ℚ) - x.units| := by
  rw [(units_ofQuotient negative hden hend).1]
  have hn := isNearest_roundHalfEven num (by positivity : 0 < den * 2 ^ droppedBits (num / den))
  have hq : droppedBits (num / den) ≠ 0 → _ := le_of_droppedBits
  generalize droppedBits (num / den) = k at *
  have hp : (0 : ℚ) < 2 ^ k := by positivity
  have hmultiple : ∀ j : ℕ, |(num / den : ℚ) -
      (roundHalfEven num (den * 2 ^ k) * 2 ^ k : ℕ)| ≤ |(num / den : ℚ) - (j * 2 ^ k : ℕ)| := by
    intro j
    rw [abs_sub_scaled num hden, abs_sub_scaled num hden]
    exact mul_le_mul_of_nonneg_right (hn.close_le j) hp.le
  by_cases hx : 2 ^ (52 + k) ≤ x.units ∨ k = 0
  · have hdvd : 2 ^ k ∣ x.units := by
      rcases hx with hx | hx
      · exact dvd_units hx
      · simp [hx]
    obtain ⟨j, hj⟩ := hdvd
    rw [hj, mul_comm (2 ^ k) j]
    exact hmultiple j
  · -- The power of two at the left end of the quotient's range is a double as well, and nearer.
    have hlt : x.units < 2 ^ (52 + k) := by omega
    have hle : (2 : ℚ) ^ (52 + k) ≤ num / den := hq (by omega)
    have hcast : (x.units : ℚ) < 2 ^ (52 + k) := by exact_mod_cast hlt
    refine (hmultiple (2 ^ 52)).trans ?_
    rw [← pow_add, abs_of_nonneg (by push_cast; linarith), abs_of_nonneg (by linarith)]
    push_cast
    linarith

/-- The error is at most half a unit, or a relative one of half a last bit. -/
theorem ofQuotient_close (hden : 0 < den) (hend : (num / den : ℚ) < overflowStart) :
    |(num / den : ℚ) - (ofQuotient negative num den).units| ≤
      Max.max (1 / 2) ((num / den : ℚ) / 2 ^ 53) := by
  rw [(units_ofQuotient negative hden hend).1]
  refine (rounded_close num hden).trans ?_
  by_cases hk : droppedBits (num / den) = 0
  · rw [hk, pow_zero]
    exact le_max_left _ _
  · have hq := le_of_droppedBits hk
    refine le_trans ?_ (le_max_right _ _)
    rw [le_div_iff₀ (by positivity)]
    calc (2 : ℚ) ^ droppedBits (num / den) / 2 * 2 ^ 53
        = 2 ^ (52 + droppedBits (num / den)) := by rw [pow_add]; ring
      _ ≤ num / den := hq

end Quotient

end Binary64

end ClusterBench
