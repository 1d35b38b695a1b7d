import ClusterBench.Binary64.Arithmetic
import ClusterBench.Proofs.Binary64.Nearest

/-!
# Rounding keeps the order

A greater quotient is never rounded to a lesser double, whatever the two quotients are and also
where the result is infinite. So whole numbers that are converted to doubles and then divided by a
positive one stay in order.
-/

namespace ClusterBench

theorem IsNearest.mono {m n : ℕ} {p q : ℚ} (hm : IsNearest m p) (hn : IsNearest n q) (h : p ≤ q) :
    m ≤ n := by
  by_contra! hlt
  have hstep : (n : ℚ) + 1 ≤ m := by exact_mod_cast hlt
  have hleft := (abs_le.mp hm.close).1
  have hright := (abs_le.mp hn.close).2
  obtain rfl : p = q := by linarith
  exact hlt.ne (hn.unique hm)

theorem isNearest_natCast (n : ℕ) : IsNearest n n := by
  apply IsNearest.of_lt
  rw [sub_self, abs_zero]
  exact one_half_pos

namespace Binary64

@[simp] theorem isNaN_infinity (negative : Bool) : (infinity negative).isNaN = false := by
  simp [isNaN, infinity]

@[simp] theorem isInfinite_infinity (negative : Bool) :
    (infinity negative).isInfinite = true := by
  simp [isInfinite, infinity]

@[simp] theorem negative_infinity (negative : Bool) :
    (infinity negative).negative = negative := by
  simp [infinity]

structure IsMagnitude (x : Binary64) : Prop where
  finite : x.isFinite
  sign : x.negative = false

section Comparison

variable {x y : Binary64}

theorem isNaN_of_isFinite (h : x.isFinite) : x.isNaN = false := by
  simp_all [isFinite, isNaN]

theorem isInfinite_of_isFinite (h : x.isFinite) : x.isInfinite = false := by
  simp_all [isFinite, isInfinite]

theorem le_iff_of_magnitudes (hx : x.IsMagnitude) (hy : y.IsMagnitude) :
    le x y = true ↔ x.units ≤ y.units := by
  simp only [le, lt, isNaN_of_isFinite hx.finite, isNaN_of_isFinite hy.finite,
    isInfinite_of_isFinite hx.finite, isInfinite_of_isFinite hy.finite, signedUnits, hx.sign,
    hy.sign, hx.finite, hy.finite, Bool.or_false, Bool.and_true, Bool.false_and, Bool.true_and,
    Bool.false_eq_true, if_false, Bool.or_eq_true, decide_eq_true_eq, beq_iff_eq, Nat.cast_lt,
    Nat.cast_inj]
  exact le_iff_lt_or_eq.symm

theorem IsMagnitude.le_infinity (hx : x.IsMagnitude) : le x (infinity false) = true := by
  simp [le, lt, isNaN_of_isFinite hx.finite, isInfinite_of_isFinite hx.finite]

theorem infinity_le_infinity : le (infinity false) (infinity false) = true := by
  simp [le]

end Comparison

/-- What fifty-three bits hold, with zeros behind. -/
def FitsBits (units : ℕ) : Prop := ∃ m k, units = m * 2 ^ k ∧ m ≤ 2 ^ 53

theorem ofUnits_cases {units : ℕ} (h : FitsBits units) :
    (units < 2 ^ (53 + topShift) ∧ (ofUnits false units).IsMagnitude ∧
      (ofUnits false units).units = units) ∨
    (2 ^ (53 + topShift) ≤ units ∧ ofUnits false units = infinity false) := by
  obtain ⟨m, k, hunits, hm⟩ := h
  rcases lt_or_ge units (2 ^ (53 + topShift)) with hlt | hge
  · obtain ⟨hvalue, hfinite, hsign⟩ := units_ofUnits false hunits hm hlt
    exact Or.inl ⟨hlt, ⟨hfinite, hsign⟩, hvalue⟩
  · refine Or.inr ⟨hge, ?_⟩
    have hpos : 0 < 2 ^ (53 + topShift) := by positivity
    have hlog : 53 + topShift ≤ units.log2 := (Nat.le_log2 (by omega)).mpr hge
    have hlarge : ¬ units < 2 ^ 52 := by
      have hpow : 2 ^ 52 ≤ 2 ^ (53 + topShift) := Nat.pow_le_pow_right two_pos (by omega)
      omega
    rw [topShift_eq] at hlog
    unfold ofUnits fractionBits
    rw [if_neg hlarge]
    dsimp only
    rw [if_neg (by omega)]

theorem le_ofUnits {u w : ℕ} (hu : FitsBits u) (hw : FitsBits w) (h : u ≤ w) :
    le (ofUnits false u) (ofUnits false w) = true := by
  rcases ofUnits_cases hw with ⟨hlt, hmagnitude, hvalue⟩ | ⟨-, hinfinite⟩
  · rcases ofUnits_cases hu with ⟨-, hmagnitude', hvalue'⟩ | ⟨hge, -⟩
    · rwa [le_iff_of_magnitudes hmagnitude' hmagnitude, hvalue', hvalue]
    · omega
  · rw [hinfinite]
    rcases ofUnits_cases hu with ⟨-, hmagnitude', -⟩ | ⟨-, hinfinite'⟩
    · exact hmagnitude'.le_infinity
    · rw [hinfinite']
      exact infinity_le_infinity

/-- The whole number of units that a quotient is rounded to, were there no greatest double. -/
def roundedUnits (num den : ℕ) : ℕ :=
  roundHalfEven num (den * 2 ^ droppedBits (num / den)) * 2 ^ droppedBits (num / den)

theorem ofQuotient_eq (negative : Bool) (num den : ℕ) :
    ofQuotient negative num den = ofUnits negative (roundedUnits num den) := rfl

theorem fitsBits_roundedUnits (num : ℕ) {den : ℕ} (hden : 0 < den) :
    FitsBits (roundedUnits num den) := ⟨_, _, rfl, rounded_le_of_droppedBits num hden⟩

section Quotients

variable {a b c d : ℕ}

theorem droppedBits_mono (h : a ≤ b) : droppedBits a ≤ droppedBits b := by
  unfold droppedBits
  rw [Nat.log2_eq_log_two, Nat.log2_eq_log_two]
  exact Nat.sub_le_sub_right (Nat.log_mono_right h) _

/-- With as many bits dropped of both quotients it is the rounding of whole numbers that keeps the
order. Where more are dropped of the greater one, a power of two lies between them. -/
theorem roundedUnits_mono (hb : 0 < b) (hd : 0 < d) (h : (a / b : ℚ) ≤ c / d) :
    roundedUnits a b ≤ roundedUnits c d := by
  have hfloor : a / b ≤ c / d := by
    rw [← Nat.floor_div_eq_div (K := ℚ), ← Nat.floor_div_eq_div (K := ℚ)]
    exact Nat.floor_mono h
  have hscaled (k : ℕ) : (a / (b * 2 ^ k : ℕ) : ℚ) ≤ c / (d * 2 ^ k : ℕ) := by
    push_cast
    rw [← div_div, ← div_div]
    exact div_le_div_of_nonneg_right h (by positivity)
  have hleast := rounded_le_of_droppedBits a hb
  have hgreatest : droppedBits (c / d) ≠ 0 → _ := le_of_droppedBits
  unfold roundedUnits
  rcases (droppedBits_mono hfloor).eq_or_lt with heq | hlt
  · rw [heq]
    apply Nat.mul_le_mul_right
    exact (isNearest_roundHalfEven a (by positivity)).mono
      (isNearest_roundHalfEven c (by positivity)) (hscaled _)
  · generalize droppedBits (a / b) = j at *
    generalize droppedBits (c / d) = k at *
    have hpow : ((2 ^ 52 : ℕ) : ℚ) ≤ c / (d * 2 ^ k : ℕ) := by
      rw [Nat.cast_mul, Nat.cast_pow, Nat.cast_pow, Nat.cast_ofNat, ← div_div,
        le_div_iff₀ (by positivity), ← pow_add]
      exact hgreatest (by omega)
    calc roundHalfEven a (b * 2 ^ j) * 2 ^ j ≤ 2 ^ 53 * 2 ^ j := Nat.mul_le_mul_right _ hleast
      _ = 2 ^ 52 * 2 ^ (j + 1) := by rw [← pow_add, ← pow_add]; congr 1; omega
      _ ≤ 2 ^ 52 * 2 ^ k := Nat.mul_le_mul_left _ (Nat.pow_le_pow_right two_pos hlt)
      _ ≤ roundHalfEven c (d * 2 ^ k) * 2 ^ k := by
        apply Nat.mul_le_mul_right
        exact (isNearest_natCast _).mono (isNearest_roundHalfEven c (by positivity)) hpow

theorem le_ofQuotient (hb : 0 < b) (hd : 0 < d) (h : (a / b : ℚ) ≤ c / d) :
    le (ofQuotient false a b) (ofQuotient false c d) = true := by
  rw [ofQuotient_eq, ofQuotient_eq]
  exact le_ofUnits (fitsBits_roundedUnits a hb) (fitsBits_roundedUnits c hd)
    (roundedUnits_mono hb hd h)

end Quotients

section Naturals

variable {m n : ℕ}

theorem natCast_eq : (Nat.cast : ℕ → Binary64) = ofNat := rfl

theorem ofNat_eq (n : ℕ) : ofNat n = ofQuotient false (n * 2 ^ unitBits) 1 := rfl

/-- What a machine word holds is far from the largest double. -/
theorem wide_of_word (h : n < 2 ^ wordBits) : n < 2 ^ 128 :=
  h.trans (Nat.pow_lt_pow_right one_lt_two (by decide))

theorem ofNat_spec (h : n < 2 ^ 128) :
    (ofNat n).IsMagnitude ∧ (ofNat n).units = roundedUnits (n * 2 ^ unitBits) 1 := by
  have hend : ((n * 2 ^ unitBits : ℕ) / (1 : ℕ) : ℚ) < overflowStart := by
    have hn : (n : ℚ) < 2 ^ 52 * 2 ^ 971 := by
      calc (n : ℚ) < 2 ^ 128 := by exact_mod_cast h
        _ ≤ 2 ^ (52 + 971) := pow_le_pow_right₀ one_le_two (by norm_num)
        _ = 2 ^ 52 * 2 ^ 971 := pow_add _ _ _
    rw [overflowStart, pow_topShift, ← mul_assoc, Nat.cast_one, div_one, Nat.cast_mul, Nat.cast_pow,
      Nat.cast_ofNat]
    refine mul_lt_mul_of_pos_right (hn.trans ?_) (by positivity)
    exact mul_lt_mul_of_pos_right (by norm_num) (by positivity)
  obtain ⟨hvalue, hfinite, hsign⟩ := units_ofQuotient false one_pos hend
  exact ⟨⟨hfinite, hsign⟩, hvalue⟩

theorem units_ofNat_mono (h : m ≤ n) (hn : n < 2 ^ 128) : (ofNat m).units ≤ (ofNat n).units := by
  rw [(ofNat_spec hn).2, (ofNat_spec (h.trans_lt hn)).2]
  refine roundedUnits_mono one_pos one_pos (div_le_div_of_nonneg_right ?_ (Nat.cast_nonneg 1))
  exact Nat.cast_le.mpr (Nat.mul_le_mul_right _ h)

theorem units_ofNat_pos (h : 0 < n) (hn : n < 2 ^ 128) : 0 < (ofNat n).units := by
  have hone : roundedUnits 1 1 = 1 := by decide
  have hle : roundedUnits 1 1 ≤ roundedUnits (n * 2 ^ unitBits) 1 := by
    refine roundedUnits_mono one_pos one_pos (div_le_div_of_nonneg_right ?_ (Nat.cast_nonneg 1))
    exact Nat.cast_le.mpr (Nat.mul_pos h (Nat.two_pow_pos unitBits))
  rw [(ofNat_spec hn).2]
  exact Nat.one_pos.trans_le (hone.ge.trans hle)

end Naturals

section Division

variable {x y scale : Binary64}

theorem div_eq_ofQuotient (hx : x.IsMagnitude) (hy : y.IsMagnitude) (hpos : 0 < y.units) :
    x / y = ofQuotient false (x.units * 2 ^ unitBits) y.units := by
  change div x y = _
  simp only [div, isNaN_of_isFinite hx.finite, isNaN_of_isFinite hy.finite,
    isInfinite_of_isFinite hx.finite, isInfinite_of_isFinite hy.finite, hx.sign, hy.sign,
    isZero_eq_false_iff.mpr hpos, Bool.or_false, Bool.bne_false, Bool.false_eq_true, if_false]

theorem div_infinity (hx : x.IsMagnitude) : x / infinity false = zero := by
  change div x (infinity false) = _
  simp only [div, isNaN_of_isFinite hx.finite, isInfinite_of_isFinite hx.finite, hx.sign,
    isNaN_infinity, isInfinite_infinity, negative_infinity, Bool.or_false, Bool.bne_false,
    Bool.false_eq_true, if_false, if_true]
  rfl

/-- What is greater than zero. -/
theorem pos_cases (h : lt zero scale = true) :
    scale = infinity false ∨ scale.IsMagnitude ∧ 0 < scale.units := by
  have hzero : zero.isNaN = false ∧ zero.isInfinite = false ∧ zero.signedUnits = 0 := by decide
  simp only [lt, hzero, Bool.false_or, Bool.false_eq_true, if_false] at h
  split_ifs at h with hnumber hinfinite
  · obtain ⟨s, e, f⟩ := scale
    simp only [isInfinite, Bool.and_eq_true, beq_iff_eq] at hinfinite
    obtain rfl : s = false := by simpa using h
    obtain rfl : e = 2047 := Fin.ext hinfinite.1
    obtain rfl : f = 0 := Fin.ext hinfinite.2
    exact Or.inl rfl
  · have hfinite : scale.isFinite := by
      simp only [isNaN, isInfinite, isFinite] at hnumber hinfinite ⊢
      simp_all
    have hunits : 0 < scale.signedUnits := of_decide_eq_true h
    unfold signedUnits at hunits
    split_ifs at hunits with hsign
    · omega
    · exact Or.inr ⟨⟨hfinite, Bool.eq_false_iff.mpr hsign⟩, by exact_mod_cast hunits⟩

theorem le_div_magnitude (hx : x.IsMagnitude) (hy : y.IsMagnitude) (hle : x.units ≤ y.units)
    (hscale : scale.IsMagnitude) (hpos : 0 < scale.units) : le (x / scale) (y / scale) = true := by
  rw [div_eq_ofQuotient hx hscale hpos, div_eq_ofQuotient hy hscale hpos]
  refine le_ofQuotient hpos hpos (div_le_div_of_nonneg_right ?_ (Nat.cast_nonneg _))
  exact Nat.cast_le.mpr (Nat.mul_le_mul_right _ hle)

theorem le_div (hx : x.IsMagnitude) (hy : y.IsMagnitude) (hle : x.units ≤ y.units)
    (hscale : lt zero scale = true) : le (x / scale) (y / scale) = true := by
  rcases pos_cases hscale with rfl | ⟨hmagnitude, hpos⟩
  · rw [div_infinity hx, div_infinity hy]
    decide
  · exact le_div_magnitude hx hy hle hmagnitude hpos

/-- A part is at most one whole. -/
theorem div_le_one (hx : x.IsMagnitude) (hy : y.IsMagnitude) (hle : x.units ≤ y.units)
    (hpos : 0 < y.units) : le (x / y) (ofNat 1) = true := by
  rw [div_eq_ofQuotient hx hy hpos, ofNat_eq]
  refine le_ofQuotient hpos one_pos ?_
  rw [one_mul, div_le_iff₀ (Nat.cast_pos.mpr hpos), Nat.cast_one, div_one, ← Nat.cast_mul,
    Nat.mul_comm (2 ^ unitBits)]
  exact Nat.cast_le.mpr (Nat.mul_le_mul_right _ hle)

end Division

end Binary64

end ClusterBench
