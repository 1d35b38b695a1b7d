import ClusterBench.Proofs.Binary64.ReadBack

/-!
# The general form of doubles

A finite double other than zero is rounded to six significant digits once: to the nearest multiple
of the place of its sixth digit, which may carry into the next decade. Its text denotes exactly this
decimal, with an exponent or without one as the exponent of the rounded decimal says, and shows no
zeros behind a point that could be dropped.
-/

namespace ClusterBench

/-- A decimal of `count + 1` digits is what a positive number is rounded to: the nearest multiple of
the place that the last digit has in the decade of the number, and the even one of two. -/
structure IsRounded (count : ℕ) (v : ℚ) (d : Decimal) : Prop where
  low : 10 ^ count ≤ d.digits
  high : d.digits < 10 ^ (count + 1)
  nearest : ∃ (decade : ℤ) (n : ℕ), ((10 : ℚ) ^ decade ≤ v ∧ v < 10 ^ (decade + 1)) ∧
    IsNearest n (v / 10 ^ (decade - count)) ∧
    (n * 10 ^ (decade - count) : ℚ) = d.digits * 10 ^ d.exponent

namespace IsRounded

variable {count : ℕ} {v : ℚ} {d d' : Decimal}

theorem decade (h : IsRounded count v d) :
    (10 : ℚ) ^ (count + d.exponent) ≤ d.digits * 10 ^ d.exponent ∧
      (d.digits * 10 ^ d.exponent : ℚ) < 10 ^ (count + d.exponent + 1) := by
  have hstep : (0 : ℚ) < 10 ^ d.exponent := by positivity
  have hlow : (10 : ℚ) ^ count ≤ d.digits := by exact_mod_cast h.low
  have hhigh : (d.digits : ℚ) < 10 ^ (count + 1) := by exact_mod_cast h.high
  rw [add_right_comm, zpow_add₀ (by norm_num), zpow_add₀ (by norm_num) _ d.exponent]
  exact ⟨mul_le_mul_of_nonneg_right (by exact_mod_cast hlow) hstep.le,
    mul_lt_mul_of_pos_right (by exact_mod_cast hhigh) hstep⟩

/-- There is one decimal that a number is rounded to. -/
theorem unique (h : IsRounded count v d) (h' : IsRounded count v d') : d = d' := by
  obtain ⟨a, m, ha, hm, hvalue⟩ := h.nearest
  obtain ⟨b, n, hb, hn, hvalue'⟩ := h'.nearest
  obtain rfl := Binary64.decade_unique ha hb
  obtain rfl := hm.unique hn
  have heq : (d.digits * 10 ^ d.exponent : ℚ) = d'.digits * 10 ^ d'.exponent :=
    hvalue.symm.trans hvalue'
  have hdecade := h.decade
  rw [heq] at hdecade
  have hexponent : d.exponent = d'.exponent := by
    have := Binary64.decade_unique hdecade h'.decade
    omega
  rw [hexponent] at heq
  have hdigits := mul_right_cancel₀ (by positivity) heq
  obtain ⟨digits, exponent⟩ := d
  obtain ⟨digits', exponent'⟩ := d'
  rw [Decimal.mk.injEq]
  exact ⟨by exact_mod_cast hdigits, hexponent⟩

end IsRounded

theorem Binary64.isRounded_significant (count : ℕ) {units : ℕ} (hunits : 0 < units) :
    IsRounded count (magnitudeOf units) (significant count units) := by
  obtain ⟨hlow, hhigh, -⟩ := significant_spec count hunits
  have hnearest := isNearest_roundHalfEven
    (stepQuotient units (decimalExponent units - count)).1
    (stepQuotient_den_pos units (decimalExponent units - count))
  rw [stepQuotient_eq] at hnearest
  refine ⟨hlow, hhigh, decimalExponent units, _, decimalExponent_decade hunits, hnearest, ?_⟩
  unfold significant
  dsimp only
  split_ifs with hcarry
  · rw [hcarry, zpow_add_one₀ (by norm_num)]
    push_cast
    ring
  · dsimp only

structure IsTrimmed (decimals : List Char) : Prop where
  digits : AllDigits decimals
  last : decimals.getLast? ≠ some '0'

inductive IsPlain : List Char → Prop
  | mk {whole decimals : List Char} (hwhole : AllDigits whole) (hne : whole ≠ [])
      (hdecimals : IsTrimmed decimals) : IsPlain (whole ++ pointed decimals)

/-- A numeral with an exponent: one digit other than zero, decimals behind a point if there are
any, and an exponent with a sign and at least two digits. -/
inductive IsScientific : List Char → Prop
  | mk {lead sign : Char} {decimals exponent : List Char} (hlead : lead.isDigit) (hne : lead ≠ '0')
      (hdecimals : IsTrimmed decimals) (hsign : sign = '+' ∨ sign = '-')
      (hexponent : AllDigits exponent) (htwo : 2 ≤ exponent.length) :
      IsScientific (lead :: pointed decimals ++ 'e' :: sign :: exponent)

theorem IsPlain.not_isScientific {cs : List Char} (h : IsPlain cs) : ¬ IsScientific cs := by
  have hplain : 'e' ∉ cs := by
    obtain ⟨hwhole, -, hdecimals⟩ := h
    have hwhole := hwhole.notMem (c := 'e') rfl
    have hdecimals := hdecimals.digits.notMem (c := 'e') rfl
    unfold pointed
    split_ifs <;> simp [hwhole, hdecimals]
  intro hscientific
  apply hplain
  obtain ⟨-, -, -, -, -, -⟩ := hscientific
  simp

theorem isTrimmed_keptDecimals (places n : ℕ) : IsTrimmed (keptDecimals places n) := by
  refine ⟨allDigits_keptDecimals places n, fun hlast => ?_⟩
  unfold keptDecimals at hlast
  split_ifs at hlast
  · cases hlast
  · have hne : (decimalChars places n).rdropWhile (· == '0') ≠ [] := by
      intro hnil
      rw [hnil] at hlast
      cases hlast
    have hnot := List.rdropWhile_last_not (· == '0') (decimalChars places n) hne
    rw [List.getLast?_eq_getLast_of_ne_nil hne, Option.some.injEq] at hlast
    exact hnot (by rw [hlast]; rfl)

def Denotes (text : String) (v : ℚ) : Prop :=
  let (negative, cs) := splitSign text.toList
  ∃ n, Numeral.read? cs = some n ∧
    v = (if negative then -1 else 1) *
      (digitsValue (n.whole ++ n.decimals) * 10 ^ (n.exponent - n.decimals.length))

namespace Binary64

theorem isScientific_generalChars {d : Decimal} (hlow : 10 ^ 5 ≤ d.digits)
    (hhigh : d.digits < 10 ^ 6) (h : d.leading < -4 ∨ 6 ≤ d.leading) :
    IsScientific (generalChars d) := by
  have hlead : d.digits / 10 ^ 5 < 10 := by omega
  have hpos : 0 < d.digits / 10 ^ 5 := by omega
  have htwo : 2 ≤ (exponentChars d.leading.natAbs).length := by
    rw [exponentChars, List.length_append, List.length_replicate]
    omega
  unfold generalChars
  rw [if_pos (by simpa using h), Nat.toDigits_of_lt_base hlead]
  refine IsScientific.mk ?_ ?_ (isTrimmed_keptDecimals 5 d.digits) ?_
    (allDigits_exponentChars _) htwo
  · interval_cases d.digits / 10 ^ 5 <;> rfl
  · interval_cases d.digits / 10 ^ 5 <;> decide
  · split_ifs <;> simp

theorem isPlain_generalChars {d : Decimal} (h : ¬ (d.leading < -4 ∨ 6 ≤ d.leading)) :
    IsPlain (generalChars d) := by
  unfold generalChars
  rw [if_neg (by simpa using h)]
  exact IsPlain.mk (allDigits_toDigits _) Nat.toDigits_ne_nil (isTrimmed_keptDecimals _ _)

theorem denotes_general {x : Binary64} (hx : x.isFinite) (h : x.isZero = false) :
    let d := significant 5 x.units
    Denotes x.general ((if x.negative then -1 else 1) * (d.digits * 10 ^ d.exponent)) := by
  intro d
  obtain ⟨hlow, hhigh, -⟩ := significant_spec 5 (isZero_eq_false_iff.mp h)
  obtain ⟨n, zeros, hread, hdigits, hexponent⟩ := read?_generalChars (digitCount_eq hlow hhigh)
  unfold Denotes
  rw [toList_general hx h, splitSign_signChars _ (head_generalChars d)]
  refine ⟨n, hread, ?_⟩
  rw [hexponent, ← hdigits, zpow_add₀ (by norm_num), zpow_natCast]
  push_cast
  ring

/-- A finite double other than zero is rounded to one decimal of six digits, and its text denotes
exactly this decimal. With `e` the exponent of the first digit, the text has an exponent if `e` is
below -4 or at least 6, and is a plain numeral otherwise. A plain numeral is rounded a second time,
to as many decimals as the six digits need, and shows the same digits. -/
theorem general_spec {x : Binary64} (hx : x.isFinite) (hzero : x.isZero = false) :
    ∃ (d : Decimal) (cs : List Char), (∀ other, IsRounded 5 x.magnitude other ↔ other = d) ∧
      Denotes x.general ((if x.negative then -1 else 1) * (d.digits * 10 ^ d.exponent)) ∧
      x.general.toList = signChars x.negative ++ cs ∧
      let e := d.exponent + 5
      (IsScientific cs ↔ e < -4 ∨ 6 ≤ e) ∧ (IsPlain cs ↔ ¬ (e < -4 ∨ 6 ≤ e)) ∧
        (¬ (e < -4 ∨ 6 ≤ e) →
          x.fixed (5 - e).toNat = x.signText ++ placesText (5 - e).toNat d.digits) := by
  have hunits := isZero_eq_false_iff.mp hzero
  obtain ⟨hlow, hhigh, -⟩ := significant_spec 5 hunits
  have hrounded : IsRounded 5 x.magnitude (significant 5 x.units) :=
    isRounded_significant 5 hunits
  have hdenotes := denotes_general hx hzero
  have htext := toList_general hx hzero
  have hleading := leading_significant hzero
  have hscaled := scaled_significant hzero
  generalize significant 5 x.units = d at *
  refine ⟨d, generalChars d, fun other => ⟨fun hother => hother.unique hrounded, ?_⟩, hdenotes,
    htext, ?_⟩
  · rintro rfl
    exact hrounded
  rw [← hleading]
  intro e
  by_cases he : e < -4 ∨ 6 ≤ e
  · have hscientific := isScientific_generalChars hlow hhigh he
    refine ⟨iff_of_true hscientific he, iff_of_false ?_ (not_not.mpr he), fun hplain => ?_⟩
    · exact fun hplain => hplain.not_isScientific hscientific
    · exact absurd he hplain
  · have hplain := isPlain_generalChars he
    refine ⟨iff_of_false hplain.not_isScientific he, iff_of_true hplain he, fun _ => ?_⟩
    rw [fixed, if_pos hx, hscaled (by omega)]

/-- The greatest number with six digits before the point and a half behind carries to a million. -/
theorem general_spec_carry :
    let x : Binary64 := 999999.5
    x.isFinite ∧ x.isZero = false ∧ IsRounded 5 x.magnitude ⟨100000, 1⟩ ∧
      Denotes x.general 1000000 ∧ ∃ cs, x.general.toList = cs ∧ IsScientific cs := by
  intro x
  have hx : x.isFinite := by decide +kernel
  have hzero : x.isZero = false := by decide +kernel
  have hsign : x.negative = false := by decide +kernel
  have hcarry : significant 5 x.units = ⟨100000, 1⟩ := by decide +kernel
  clear_value x
  have hrounded : IsRounded 5 x.magnitude ⟨100000, 1⟩ := by
    rw [← hcarry]
    exact isRounded_significant 5 (isZero_eq_false_iff.mp hzero)
  obtain ⟨d, cs, hunique, hdenotes, htext, hscientific, -⟩ := general_spec hx hzero
  obtain rfl := (hunique _).mp hrounded
  rw [hsign] at hdenotes htext
  norm_num at hdenotes
  exact ⟨hx, hzero, hrounded, hdenotes, cs, htext, hscientific.mpr (Or.inr (by decide))⟩

end Binary64

end ClusterBench
