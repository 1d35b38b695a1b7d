import Mathlib
import ClusterBench.Results.Summary

/-!
# Statistics in exact arithmetic

With rational numbers in the place of doubles nothing is rounded, and with real numbers roots are
not rounded either. The mean of a sample is then its sum through its size, so it grows with the
values and lies between any bounds of them, and the extremes of a sample are bounds of it.
-/

namespace ClusterBench

namespace ExactArithmetic

/-- Rational numbers with their own operations; what is undefined is zero. -/
scoped instance : Arithmetic ℚ where
  undefined := 0
  le a b := decide (a ≤ b)
  floor x := ⌊x⌋₊
  ceil x := ⌈x⌉₊

@[simp] theorem le_iff {a b : ℚ} : Arithmetic.le a b = true ↔ a ≤ b := decide_eq_true_iff

@[simp] theorem floor_eq (x : ℚ) : Arithmetic.floor x = ⌊x⌋₊ := rfl

@[simp] theorem ceil_eq (x : ℚ) : Arithmetic.ceil x = ⌈x⌉₊ := rfl

/-- Real numbers with their own operations; what is undefined is zero. -/
noncomputable scoped instance : Arithmetic ℝ where
  undefined := 0
  le a b := decide (a ≤ b)
  floor x := ⌊x⌋₊
  ceil x := ⌈x⌉₊

noncomputable scoped instance : SquareRoot ℝ := ⟨Real.sqrt⟩

end ExactArithmetic

open scoped ExactArithmetic

namespace Sample

theorem sum_eq (values : List ℚ) : sum values = values.sum := by
  rw [sum, List.sum_eq_foldl, Nat.cast_zero, neg_zero]

section

variable {K : Type} [Field K] [LinearOrder K] [IsStrictOrderedRing K] {values : List K} {bound : K}

theorem le_mean (hne : values ≠ []) (h : ∀ v ∈ values, bound ≤ v) :
    bound ≤ values.sum / values.length := by
  have hlength : (0 : K) < values.length := by exact_mod_cast List.length_pos_iff.mpr hne
  have hsum := List.card_nsmul_le_sum values bound h
  rwa [le_div_iff₀ hlength, mul_comm, ← nsmul_eq_mul]

theorem mean_le (hne : values ≠ []) (h : ∀ v ∈ values, v ≤ bound) :
    values.sum / values.length ≤ bound := by
  have hlength : (0 : K) < values.length := by exact_mod_cast List.length_pos_iff.mpr hne
  have hsum := List.sum_le_card_nsmul values bound h
  rwa [div_le_iff₀ hlength, mul_comm, ← nsmul_eq_mul]

end

theorem mean_meanConf [SquareRoot ℚ] (values : List ℚ) :
    (meanConf values).mean = values.sum / values.length := by
  match values with
  | [] => simp [meanConf]
  | [v] => simp [meanConf]
  | v :: w :: rest =>
    rw [← sum_eq]
    rfl

theorem mean_meanConf_mono [SquareRoot ℚ] {α : Type} {as : List α} {f g : α → ℚ}
    (h : ∀ a ∈ as, f a ≤ g a) : (meanConf (as.map f)).mean ≤ (meanConf (as.map g)).mean := by
  rw [mean_meanConf, mean_meanConf, List.length_map, List.length_map]
  exact div_le_div_of_nonneg_right (List.sum_le_sum h) (Nat.cast_nonneg _)

end Sample

namespace Summary

variable {choose : ℚ → ℚ → ℚ} {values : List ℚ}

/-- What is chosen bounds all values if it bounds both of any two that it is chosen from. -/
theorem bounds_foldl (bounds : ℚ → ℚ → Prop) (hrefl : ∀ a, bounds a a)
    (htrans : ∀ a b c, bounds a b → bounds b c → bounds a c)
    (hleft : ∀ a b, bounds (choose a b) a) (hright : ∀ a b, bounds (choose a b) b) (first : ℚ) :
    ∀ v ∈ first :: values, bounds (values.foldl choose first) v := by
  induction values generalizing first with
  | nil => simpa using hrefl first
  | cons next values ih =>
    have ih := ih (choose first next)
    rw [List.forall_mem_cons] at ih ⊢
    refine ⟨htrans _ _ _ ih.1 (hleft _ _), ?_⟩
    rw [List.forall_mem_cons]
    exact ⟨htrans _ _ _ ih.1 (hright _ _), ih.2⟩

theorem extreme_min_le {v : ℚ} (h : v ∈ values) : (extreme Min.min values).mean ≤ v := by
  cases values with
  | nil => cases h
  | cons first values =>
    exact bounds_foldl (· ≤ ·) le_refl (fun _ _ _ => le_trans) min_le_left min_le_right first v h

theorem le_extreme_max {v : ℚ} (h : v ∈ values) : v ≤ (extreme Max.max values).mean := by
  cases values with
  | nil => cases h
  | cons first values =>
    exact bounds_foldl (· ≥ ·) le_refl (fun _ _ _ => ge_trans) le_max_left le_max_right first v h

end Summary

end ClusterBench
