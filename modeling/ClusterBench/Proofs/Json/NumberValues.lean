import ClusterBench.Proofs.Binary64.Scaling
import ClusterBench.Proofs.Json.Tokens

/-!
# What numerals are read as

A numeral denotes a rational number: all its digits, scaled by a power of ten. It is read from its
leading digits only, as many as a machine word holds, and these are rounded before they are scaled.
So a long numeral may be read as a double that is not the nearest one. But it is always read as one
that is close, and as the nearest one where digits and power are small.
-/

namespace ClusterBench

namespace Numeral

def digits (n : Numeral) : ℕ := digitsValue (n.whole ++ n.decimals)

def scale (n : Numeral) : ℤ := n.exponent - n.decimals.length

def size (n : Numeral) : ℚ := n.digits * 10 ^ n.scale

/-- Digits and power are doubles, or the numeral is a whole number that a machine word holds. -/
def Short (n : Numeral) : Prop :=
  n.digits ≤ 2 ^ 53 ∧ |n.scale| ≤ 22 ∨ n.digits < 2 ^ wordBits ∧ n.scale = 0

theorem size_nonneg (n : Numeral) : 0 ≤ n.size := by
  unfold size
  positivity

end Numeral

namespace Json

theorem digitValue_le (c : Char) : digitValue c ≤ 9 := by
  unfold digitValue
  split_ifs with h
  · simp only [Char.isDigit, Bool.and_eq_true, decide_eq_true_eq, UInt32.le_iff_toNat_le] at h
    have hhigh : c.toNat ≤ 57 := h.2
    have hzero : '0'.toNat = 48 := rfl
    omega
  · exact Nat.zero_le 9

theorem digitsValue_lt (cs : List Char) : digitsValue cs < 10 ^ cs.length := by
  induction cs using List.reverseRecOn with
  | nil => exact Nat.one_pos
  | append_singleton cs c ih =>
    have hdigit := digitValue_le c
    have hlast : digitsValue [c] = digitValue c := by simp [digitsValue]
    rw [digitsValue_append, List.length_append, List.length_singleton, hlast, pow_one, pow_succ]
    omega

/-- Digits are appended up to the first one that does not fit, and then the number is large. -/
theorem appendDigits_cases {n : ℕ} (hn : n < 2 ^ wordBits) (cs : List Char) :
    ∃ taken, cs = taken ++ (appendDigits n cs).2 ∧
      (appendDigits n cs).1 = n * 10 ^ taken.length + digitsValue taken ∧
      (appendDigits n cs).1 < 2 ^ wordBits ∧
      ((appendDigits n cs).2 = [] ∨ 2 ^ 60 ≤ (appendDigits n cs).1) := by
  induction cs generalizing n with
  | nil => exact ⟨[], rfl, (Nat.mul_one n).symm, hn, Or.inl rfl⟩
  | cons c cs ih =>
    rw [appendDigits]
    split_ifs with hfits
    · obtain ⟨taken, hcs, hvalue, hlt, hrest⟩ := ih hfits
      have hcons : digitsValue (c :: taken) = digitValue c * 10 ^ taken.length +
          digitsValue taken := by
        rw [← List.singleton_append, digitsValue_append]
        simp [digitsValue]
      refine ⟨c :: taken, by rw [List.cons_append, ← hcs], ?_, hlt, hrest⟩
      rw [hvalue, hcons, List.length_cons, pow_succ]
      ring
    · have hdigit := digitValue_le c
      have hlarge : 2 ^ 60 * 10 + 9 < 2 ^ wordBits := by decide
      exact ⟨[], rfl, (Nat.mul_one n).symm, hn, Or.inr (by omega)⟩

/-- What stands in front tells a number up to a step. -/
theorem digits_step (front rest : List Char) (e : ℤ) :
    digitsValue front * (10 : ℚ) ^ (e + rest.length) ≤ digitsValue (front ++ rest) * 10 ^ e ∧
      digitsValue (front ++ rest) * (10 : ℚ) ^ e ≤
        (digitsValue front + 1) * 10 ^ (e + rest.length) := by
  have hstep : (10 : ℚ) ^ (e + rest.length) = 10 ^ rest.length * 10 ^ e := by
    rw [add_comm, zpow_add₀ (by norm_num), zpow_natCast]
  have hrest : (digitsValue rest : ℚ) ≤ 10 ^ rest.length := by
    exact_mod_cast (digitsValue_lt rest).le
  rw [hstep, ← mul_assoc, ← mul_assoc, digitsValue_append]
  push_cast
  constructor
  · exact mul_le_mul_of_nonneg_right (le_add_of_nonneg_right (by positivity)) (by positivity)
  · exact mul_le_mul_of_nonneg_right (by linarith) (by positivity)

/-- Numbers on the same step are close if it has many below. -/
theorem close_of_step {p q s : ℚ} {k : ℕ} (hs : 0 ≤ s) (hk : 2 ^ 60 ≤ k)
    (hp : k * s ≤ p ∧ p ≤ (k + 1) * s) (hq : k * s ≤ q ∧ q ≤ (k + 1) * s) :
    |p - q| ≤ q / 2 ^ 60 := by
  have hks : 2 ^ 60 * s ≤ k * s := mul_le_mul_of_nonneg_right (by exact_mod_cast hk) hs
  rw [abs_le, le_div_iff₀ (by positivity), neg_le, le_div_iff₀ (by positivity)]
  constructor <;> linarith

theorem le_foldl_digits (cs : List Char) (n : ℕ) :
    n ≤ cs.foldl (fun n c => n * 10 + digitValue c) n := by
  rw [foldl_digits]
  exact (Nat.le_mul_of_pos_right n (by positivity)).trans (Nat.le_add_right _ _)

/-- Digits that fit are all appended. -/
theorem appendDigits_of_lt {n : ℕ} {cs : List Char}
    (h : cs.foldl (fun n c => n * 10 + digitValue c) n < 2 ^ wordBits) :
    appendDigits n cs = (cs.foldl (fun n c => n * 10 + digitValue c) n, []) := by
  induction cs generalizing n with
  | nil => rfl
  | cons c cs ih =>
    rw [List.foldl_cons] at h ⊢
    rw [appendDigits, if_pos ((le_foldl_digits cs _).trans_lt h), ih h]

namespace Number

variable (n : Number)

theorem leading_of_lt (h : n.numeral.digits < 2 ^ wordBits) :
    n.leading = (n.numeral.digits, n.numeral.scale) := by
  have hdigits : n.numeral.digits = n.numeral.decimals.foldl (fun n c => n * 10 + digitValue c)
      (digitsValue n.numeral.whole) := List.foldl_append
  have hwhole : digitsValue n.numeral.whole < 2 ^ wordBits := by
    rw [hdigits] at h
    exact (le_foldl_digits _ _).trans_lt h
  unfold leading
  rw [appendDigits_of_lt hwhole]
  dsimp only
  rw [← digitsValue, appendDigits_of_lt (by rwa [← hdigits]), ← hdigits]
  simp [Numeral.scale]

/-- The leading digits are those in front of what did not fit. -/
theorem exists_leading : ∃ whole zeros decimals unread : List Char,
    n.numeral.whole = whole ++ zeros ∧ n.numeral.decimals = decimals ++ unread ∧
      n.leading = (digitsValue (whole ++ decimals),
        n.numeral.exponent + zeros.length - decimals.length) ∧
      digitsValue (whole ++ decimals) < 2 ^ wordBits ∧
      (zeros = [] ∨ 2 ^ 60 ≤ digitsValue whole) ∧
      (unread = [] ∨ 2 ^ 60 ≤ digitsValue (whole ++ decimals)) := by
  obtain ⟨whole, hwhole, hvalue, hlt, hzeros⟩ :=
    appendDigits_cases (Nat.two_pow_pos wordBits) n.numeral.whole
  rw [Nat.zero_mul, Nat.zero_add] at hvalue
  rw [hvalue] at hlt hzeros
  obtain ⟨decimals, hdecimals, hvalue', hlt', hunread⟩ := appendDigits_cases hlt n.numeral.decimals
  rw [← digitsValue_append] at hvalue'
  rw [hvalue'] at hlt' hunread
  refine ⟨whole, _, decimals, _, hwhole, hdecimals, ?_, hlt', hzeros, hunread⟩
  have hlength := congrArg List.length hdecimals
  rw [List.length_append] at hlength
  unfold leading
  dsimp only
  rw [hvalue]
  refine Prod.ext hvalue' ?_
  dsimp only
  omega

/-- What the leading digits say is close to the number. -/
theorem leading_close : n.leading.1 < 2 ^ wordBits ∧
    |(n.leading.1 * 10 ^ n.leading.2 : ℚ) - n.numeral.size| ≤ n.numeral.size / 2 ^ 60 := by
  obtain ⟨whole, zeros, decimals, unread, hwhole, hdecimals, hleading, hlt, hzeros, hunread⟩ :=
    n.exists_leading
  rw [hleading, Numeral.size, Numeral.digits, Numeral.scale, hwhole, hdecimals]
  refine ⟨hlt, ?_⟩
  dsimp only
  generalize n.numeral.exponent = e
  rcases hzeros with rfl | hlarge
  · rw [List.append_nil, ← List.append_assoc, List.length_nil, Nat.cast_zero, add_zero]
    rcases hunread with rfl | hlarge
    · rw [List.append_nil, List.append_nil, sub_self, abs_zero]
      positivity
    · have hstep := digits_step (whole ++ decimals) unread (e - (decimals ++ unread).length)
      have hscale : e - (decimals ++ unread).length + unread.length = e - decimals.length := by
        rw [List.length_append, Nat.cast_add]
        ring
      rw [hscale] at hstep
      have hpos : (0 : ℚ) ≤ 10 ^ (e - decimals.length : ℤ) := by positivity
      exact close_of_step hpos hlarge ⟨le_rfl, by linarith⟩ hstep
  · have hread := digits_step whole decimals (e + zeros.length - decimals.length)
    have hstep :=
      digits_step whole (zeros ++ (decimals ++ unread)) (e - (decimals ++ unread).length)
    have hscale : e - (decimals ++ unread).length + (zeros ++ (decimals ++ unread)).length =
        e + zeros.length := by
      generalize decimals ++ unread = rest
      rw [List.length_append, Nat.cast_add]
      ring
    rw [sub_add_cancel] at hread
    rw [hscale] at hstep
    rw [List.append_assoc]
    exact close_of_step (by positivity) hlarge hread hstep

/-- A number is read with an error that is less than a relative one of `2 ^ (-50)` and the least
positive double, unless with such an error it is beyond what doubles hold. -/
theorem real_cases :
    (n.real.isFinite ∧ n.real.negative = n.negative ∧
      |n.real.magnitude - n.numeral.size| ≤ n.numeral.size / 2 ^ 50 + 1 / 2 ^ 1074) ∨
    n.real.isFinite = false ∧ Binary64.magnitudeEnd ≤ n.numeral.size * (1 + 1 / 2 ^ 50) := by
  obtain ⟨hword, hleading⟩ := n.leading_close
  have hsize := n.numeral.size_nonneg
  have hscaled := Binary64.scaledByTen_cases hword n.leading.2
  have hreal : n.real = if n.negative then -(Binary64.ofNat n.leading.1).scaledByTen n.leading.2
      else (Binary64.ofNat n.leading.1).scaledByTen n.leading.2 := rfl
  rw [hreal, ← Binary64.two_mul_halfUnit]
  generalize (Binary64.ofNat n.leading.1).scaledByTen n.leading.2 = x at *
  generalize (n.leading.1 * 10 ^ n.leading.2 : ℚ) = w at *
  obtain ⟨-, hw⟩ := abs_le.mp hleading
  rcases hscaled with ⟨hmagnitude, hclose⟩ | ⟨hinfinite, hlarge⟩
  · have htotal : |x.magnitude - n.numeral.size| ≤
        n.numeral.size / 2 ^ 50 + 2 * Binary64.halfUnit := by
      have := abs_sub_le x.magnitude w n.numeral.size
      linarith
    left
    split_ifs with hnegative
    · exact ⟨hmagnitude.finite, by rw [hnegative]; exact congrArg not hmagnitude.sign, htotal⟩
    · rw [Bool.not_eq_true] at hnegative
      exact ⟨hmagnitude.finite, hmagnitude.sign.trans hnegative.symm, htotal⟩
  · right
    have hsize : Binary64.magnitudeEnd ≤ n.numeral.size * (1 + 1 / 2 ^ 50) := by linarith
    split_ifs
    · exact ⟨hinfinite, hsize⟩
    · exact ⟨hinfinite, hsize⟩

theorem real_nearest (h : n.numeral.Short) :
    Binary64.IsDoubleNearest n.negative n.numeral.size n.real := by
  have hread : Binary64.IsDoubleNearest false n.numeral.size
      ((Binary64.ofNat n.numeral.digits).scaledByTen n.numeral.scale) := by
    rcases h with ⟨hdigits, hscale⟩ | ⟨hdigits, hscale⟩
    · exact Binary64.scaledByTen_nearest hdigits hscale
    · rw [Numeral.size, hscale, zpow_zero, mul_one]
      exact Binary64.scaledByTen_zero hdigits
  have hlt : n.numeral.digits < 2 ^ wordBits :=
    h.elim (fun h => h.1.trans_lt (by norm_num)) (·.1)
  have hreal : n.real =
      if n.negative then -(Binary64.ofNat n.numeral.digits).scaledByTen n.numeral.scale
      else (Binary64.ofNat n.numeral.digits).scaledByTen n.numeral.scale := by
    rw [real, n.leading_of_lt hlt]
  rw [hreal]
  cases n.negative with
  | false => exact hread
  | true => exact hread.neg

end Number

namespace NumberText

variable (n : NumberText)

def numeral : Numeral := ⟨n.whole, n.decimals, n.power.elim 0 PowerText.value⟩

/-- What a numeral may be read as: a double with its sign and close to it, the nearest one if the
numeral is short. -/
structure IsReading (x : Binary64) : Prop where
  finite : x.isFinite
  sign : x.negative = n.negative
  close : |x.magnitude - n.numeral.size| ≤ n.numeral.size / 2 ^ 50 + 1 / 2 ^ 1074
  nearest : n.numeral.Short → Binary64.IsDoubleNearest n.negative n.numeral.size x

theorem numeral_number : n.number.numeral = n.numeral ∧ n.number.negative = n.negative := by
  obtain ⟨negative, whole, decimals, power, -, -, -, -⟩ := n
  cases power <;> exact ⟨rfl, rfl⟩

/-- A numeral is read, unless with a small error it is beyond what doubles hold. -/
theorem real_number_cases (origin : Origin) :
    (∃ x, Decoder.real origin (.number n.number) = .ok x ∧ n.IsReading x) ∨
      Decoder.real origin (.number n.number) = .error .malformed ∧
        Binary64.magnitudeEnd ≤ n.numeral.size * (1 + 1 / 2 ^ 50) := by
  obtain ⟨hnumeral, hnegative⟩ := n.numeral_number
  rw [← hnumeral]
  rcases n.number.real_cases with ⟨hfinite, hsign, hclose⟩ | ⟨hinfinite, hlarge⟩
  · refine Or.inl ⟨n.number.real, if_pos hfinite, ?_⟩
    rw [hnumeral] at hclose
    refine ⟨hfinite, hsign.trans hnegative, hclose, fun hshort => ?_⟩
    rw [← hnumeral, ← hnegative] at *
    exact n.number.real_nearest hshort
  · refine Or.inr ⟨?_, hlarge⟩
    rw [Decoder.real, Number.inRange, hinfinite]
    rfl

end NumberText

end Json

end ClusterBench
