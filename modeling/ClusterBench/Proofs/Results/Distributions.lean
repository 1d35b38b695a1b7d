import ClusterBench.Proofs.Results.ExactStatistics
import ClusterBench.Proofs.Results.Histogram

/-!
# Distributions count observations

The distribution of a histogram is found by adding up counts from bucket to bucket. Since values
increase from bucket to bucket, what has been added up at a bucket is the number of all observations
that are not above its value. The numbers grow with each bucket, because no bucket is empty, up to
the number of all observations.
-/

namespace ClusterBench

open scoped ExactArithmetic

namespace Buckets

theorem countP_expand_cons {b : ℕ × ℕ} {buckets : Buckets} {v : ℕ} (hv : b.1 ≤ v) :
    (expand (b :: buckets)).countP (· ≤ v) = b.2 + buckets.expand.countP (· ≤ v) := by
  rw [expand_cons, List.countP_append, List.countP_replicate, if_pos (decide_eq_true hv)]

/-- Nothing that comes behind a bucket is counted at its value. -/
theorem Ordered.countP_expand_tail {b : ℕ × ℕ} {buckets : Buckets} (h : Ordered (b :: buckets)) :
    buckets.expand.countP (· ≤ b.1) = 0 := by
  rw [List.countP_eq_zero]
  intro v hv
  simpa using h.lt_of_mem_expand hv

end Buckets

namespace Histogram

variable {h : Histogram}

def cumulative (h : Histogram) (v : ℕ) : ℕ := h.observations.countP (· ≤ v)

/-- What has been added up at a bucket counts the observations of all buckets, also of those behind
it. -/
theorem fractions_eq {α : Type} [Arithmetic α] {buckets : Buckets} (h : buckets.Ordered)
    (total seen : ℕ) : (fractions total seen buckets : List (ℕ × α)) = buckets.map fun b =>
      (b.1, ((seen + buckets.expand.countP (· ≤ b.1) : ℕ) : α) / (total : α)) := by
  induction buckets generalizing seen with
  | nil => rfl
  | cons head rest ih =>
    have hhead : (Buckets.expand (head :: rest)).countP (· ≤ head.1) = head.2 := by
      rw [Buckets.countP_expand_cons le_rfl, h.countP_expand_tail, Nat.add_zero]
    have hrest : ∀ b ∈ rest, (Buckets.expand (head :: rest)).countP (· ≤ b.1) =
        head.2 + (Buckets.expand rest).countP (· ≤ b.1) := fun b hb =>
      Buckets.countP_expand_cons ((List.pairwise_cons.mp h.1).1 b hb).le
    rw [fractions, ih h.tail, List.map_cons, hhead]
    congr 1
    apply List.map_congr_left
    intro b hb
    rw [hrest b hb, Nat.add_assoc]

theorem cdf_eq {α : Type} [Arithmetic α] (h : Histogram) : (h.cdf : List (ℕ × α)) =
    h.buckets.map fun b => (b.1, (h.cumulative b.1 : α) / (h.count : α)) := by
  rw [cdf, fractions_eq h.ordered]
  simp only [Nat.zero_add]
  rfl

theorem mem_observations {b : ℕ × ℕ} (hb : b ∈ h.buckets) : b.1 ∈ h.observations := by
  refine List.mem_flatMap.mpr ⟨b, hb, ?_⟩
  exact List.mem_replicate.mpr ⟨(h.ordered.2 b hb).ne', rfl⟩

theorem mem_observations_iff {v : ℕ} : v ∈ h.observations ↔ v ∈ h.buckets.map Prod.fst := by
  constructor
  · intro hv
    obtain ⟨b, hb, rfl⟩ := Buckets.mem_expand hv
    exact List.mem_map_of_mem hb
  · intro hv
    obtain ⟨b, hb, rfl⟩ := List.mem_map.mp hv
    exact mem_observations hb

theorem countP_le_mono {v w : ℕ} (hvw : v ≤ w) (observed : List ℕ) :
    observed.countP (· ≤ v) ≤ observed.countP (· ≤ w) := by
  apply List.countP_mono_left
  intro u _ hu
  simp only [decide_eq_true_eq] at hu ⊢
  exact hu.trans hvw

theorem cumulative_mono {v w : ℕ} (hvw : v ≤ w) : h.cumulative v ≤ h.cumulative w :=
  countP_le_mono hvw h.observations

theorem cumulative_lt {v w : ℕ} (hvw : v < w) (hw : w ∈ h.observations) :
    h.cumulative v < h.cumulative w := by
  obtain ⟨before, after, hsplit⟩ := List.append_of_mem hw
  have hbefore := countP_le_mono hvw.le before
  have hafter := countP_le_mono hvw.le after
  rw [cumulative, cumulative, hsplit, List.countP_append, List.countP_append,
    List.countP_cons_of_neg (by simpa using hvw), List.countP_cons_of_pos (by simp)]
  omega

theorem cumulative_le_count (h : Histogram) (v : ℕ) : h.cumulative v ≤ h.count := by
  rw [count_eq_length]
  exact List.countP_le_length

theorem cumulative_pos {v : ℕ} (hv : v ∈ h.observations) : 0 < h.cumulative v :=
  List.countP_pos_iff.mpr ⟨v, hv, by simp⟩

/-- Nothing is above the last value. -/
theorem cumulative_last {front : Buckets} {b : ℕ × ℕ} (hb : h.buckets = front ++ [b]) :
    h.cumulative b.1 = h.count := by
  rw [count_eq_length, cumulative, List.countP_eq_length]
  intro v hv
  obtain ⟨c, hc, rfl⟩ := Buckets.mem_expand hv
  have hpairwise := h.ordered.1
  rw [hb, List.pairwise_append] at hpairwise
  rw [hb, List.mem_append, List.mem_singleton] at hc
  rw [decide_eq_true_eq]
  rcases hc with hc | rfl
  · exact (hpairwise.2.2 c hc b List.mem_cons_self).le
  · exact le_rfl

theorem cumulative_merge (a b : Histogram) (v : ℕ) :
    (a.merge b).cumulative v = a.cumulative v + b.cumulative v := by
  simp only [cumulative, ← Multiset.coe_countP, coe_observations_merge, Multiset.countP_add]

theorem cumulative_of_holds {observed : Multiset ℕ} (hholds : h.Holds observed) (v : ℕ) :
    h.cumulative v = observed.countP (· ≤ v) := by
  rw [← holds_iff.mp hholds, Multiset.coe_countP, cumulative]

theorem count_of_holds {observed : Multiset ℕ} (hholds : h.Holds observed) :
    h.count = observed.card := by
  rw [← holds_iff.mp hholds, Multiset.coe_card, count_eq_length]

theorem map_fst_cdf (h : Histogram) :
    (h.cdf : List (ℕ × ℚ)).map Prod.fst = h.buckets.map Prod.fst := by
  rw [cdf_eq, List.map_map]
  rfl

theorem count_pos_of_mem {b : ℕ × ℕ} (hb : b ∈ h.buckets) : 0 < h.count :=
  (cumulative_pos (mem_observations hb)).trans_le (h.cumulative_le_count b.1)

theorem pairwise_snd_cdf (h : Histogram) :
    ((h.cdf : List (ℕ × ℚ)).map Prod.snd).Pairwise (· < ·) := by
  rw [cdf_eq, List.map_map, List.pairwise_map]
  apply h.ordered.1.imp_of_mem
  intro b c hb hc hlt
  have hcount : (0 : ℚ) < h.count := Nat.cast_pos.mpr (count_pos_of_mem hb)
  exact div_lt_div_of_pos_right (Nat.cast_lt.mpr (cumulative_lt hlt (mem_observations hc))) hcount

theorem snd_cdf_mem_Ioc {step : ℕ × ℚ} (hstep : step ∈ (h.cdf : List (ℕ × ℚ))) :
    step.2 ∈ Set.Ioc 0 1 := by
  rw [cdf_eq] at hstep
  obtain ⟨b, hb, rfl⟩ := List.mem_map.mp hstep
  have hcount : (0 : ℚ) < h.count := Nat.cast_pos.mpr (count_pos_of_mem hb)
  have hcumulative : (0 : ℚ) < h.cumulative b.1 :=
    Nat.cast_pos.mpr (cumulative_pos (mem_observations hb))
  refine ⟨div_pos hcumulative hcount, (div_le_one hcount).mpr ?_⟩
  exact Nat.cast_le.mpr (h.cumulative_le_count b.1)

theorem getLast?_snd_cdf (hne : h.buckets ≠ []) :
    ((h.cdf : List (ℕ × ℚ)).map Prod.snd).getLast? = some 1 := by
  obtain ⟨front, b, hb⟩ := h.buckets.eq_nil_or_concat'.resolve_left hne
  have hcount : (h.count : ℚ) ≠ 0 := by
    have hmem : b ∈ h.buckets := hb ▸ List.mem_concat_self
    exact Nat.cast_ne_zero.mpr (count_pos_of_mem hmem).ne'
  rw [cdf_eq, hb, List.map_append, List.map_append, List.map_singleton, List.map_singleton,
    List.getLast?_concat, cumulative_last hb, div_self hcount]

/-- The distribution of a histogram lists each value that was observed on the way once, in
increasing order, with the number of observations that are not above it as a fraction of all of
them. The fractions grow, they are above zero and the last one is one. In a merged histogram the
observations of both sides are counted. -/
theorem cdf_counts {r : Recipe} (hbuild : r.build = .ok h) :
    let cdf : List (ℕ × ℚ) := h.cdf
    ((cdf.map Prod.fst).Pairwise (· < ·) ∧ ∀ v, v ∈ cdf.map Prod.fst ↔ v ∈ r.observed) ∧
      (∀ step ∈ cdf, step.2 = (r.observed.countP (· ≤ step.1) : ℚ) / r.observed.card) ∧
      (cdf.map Prod.snd).Pairwise (· < ·) ∧
      (∀ step ∈ cdf, step.2 ∈ Set.Ioc 0 1) ∧
      (r.observed ≠ 0 → (cdf.map Prod.snd).getLast? = some 1) ∧
      ∀ a b : Histogram,
        (∀ v, (a.merge b).cumulative v = a.cumulative v + b.cumulative v) ∧
        ∀ step ∈ ((a.merge b).cdf : List (ℕ × ℚ)),
          step.2 * (a.merge b).count = a.cumulative step.1 + b.cumulative step.1 := by
  have hholds := r.holds_of_build hbuild
  intro cdf
  refine ⟨⟨?_, fun v => ?_⟩, fun step hstep => ?_, h.pairwise_snd_cdf,
    fun step => snd_cdf_mem_Ioc, fun hne => ?_, fun a b => ⟨cumulative_merge a b, ?_⟩⟩
  · rw [map_fst_cdf, List.pairwise_map]
    exact h.ordered.1
  · rw [map_fst_cdf, ← mem_observations_iff, ← Multiset.mem_coe, holds_iff.mp hholds]
  · rw [show cdf = _ from h.cdf_eq] at hstep
    obtain ⟨b, -, rfl⟩ := List.mem_map.mp hstep
    rw [cumulative_of_holds hholds, count_of_holds hholds]
  · apply getLast?_snd_cdf
    intro hnil
    rw [← holds_iff.mp hholds, observations_eq, hnil] at hne
    exact hne rfl
  · intro step hstep
    rw [cdf_eq] at hstep
    obtain ⟨c, hc, rfl⟩ := List.mem_map.mp hstep
    have hcount : ((a.merge b).count : ℚ) ≠ 0 := Nat.cast_ne_zero.mpr (count_pos_of_mem hc).ne'
    rw [div_mul_cancel₀ _ hcount, cumulative_merge, Nat.cast_add]

theorem cdf_counts_mixed : ∃ h, Recipe.mixed.build = .ok h ∧
    (10 ∈ (h.cdf : List (ℕ × ℚ)).map Prod.fst ∧ 20 ∉ (h.cdf : List (ℕ × ℚ)).map Prod.fst) ∧
      (∀ step ∈ (h.cdf : List (ℕ × ℚ)), step.1 = 10 → step.2 = 5 / 7) ∧
      ((h.cdf : List (ℕ × ℚ)).map Prod.snd).getLast? = some 1 := by
  obtain ⟨h, hbuild⟩ : ∃ h, Recipe.mixed.build = .ok h := ⟨_, rfl⟩
  have hobserved : Recipe.mixed.observed = ([5, 10, 10, 10, 10, 30, 30] : List ℕ) := by decide
  obtain ⟨⟨-, hvalues⟩, hfractions, -, -, hlast, -⟩ := cdf_counts hbuild
  refine ⟨h, hbuild, ⟨(hvalues 10).mpr ?_, (hvalues 20).not.mpr ?_⟩, ?_, hlast ?_⟩
  · rw [hobserved]
    decide
  · rw [hobserved]
    decide
  · intro step hstep hten
    rw [hfractions step hstep, hten, hobserved, Multiset.coe_card, Multiset.coe_countP]
    rfl
  · rw [hobserved]
    decide

end Histogram

end ClusterBench
