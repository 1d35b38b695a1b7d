import ClusterBench.Proofs.Results.Percentiles
import ClusterBench.Results.HistogramFile

/-!
# Latencies are in order

Latencies that are taken from a histogram are in order: greater percentiles are not below lesser
ones, and all of them and the mean lie between the extremes. This is kept when runs are summarized,
although percentiles and means are averaged over the runs and the extremes are those of all runs.
-/

namespace ClusterBench

open scoped ExactArithmetic

namespace RunData

/-- Percentiles grow, and everything lies between the least and the greatest latency. -/
structure InOrder (run : RunData ℚ) : Prop where
  min_le_median : run.minLatency ≤ run.medianLatency
  median_le_p95 : run.medianLatency ≤ run.p95Latency
  p95_le_p99 : run.p95Latency ≤ run.p99Latency
  p99_le_max : run.p99Latency ≤ run.maxLatency
  min_le_mean : run.minLatency ≤ run.meanLatency
  mean_le_max : run.meanLatency ≤ run.maxLatency

end RunData

theorem Buckets.card_contents (buckets : Buckets) :
    buckets.contents.card = (buckets.map Prod.snd).sum := by
  simp [contents_eq_expand, expand]

namespace Histogram

theorem count_merge (a b : Histogram) : (a.merge b).count = a.count + b.count := by
  simp only [count_eq_length, ← Multiset.coe_card, coe_observations_merge, Multiset.card_add]

/-- Parallel lists of values and counts give a histogram with as many observations as counted. -/
theorem exists_ofBuckets {values counts : List ℕ} (h : values.length = counts.length) :
    ∃ histogram, ofBuckets values counts = .ok histogram ∧ histogram.count = counts.sum := by
  refine ⟨_, if_pos h, ?_⟩
  rw [count_eq_length, ← Multiset.coe_card, coe_observations_addAll, Multiset.card_add,
    Buckets.card_contents, List.map_snd_zip h.ge]
  exact Nat.zero_add _

end Histogram

namespace RunData

variable {run : RunData ℚ} {h : Histogram}

theorem withLatencies_eq (hne : h.count ≠ 0) : run.withLatencies h = some { run with
    meanLatency := h.mean, medianLatency := h.percentile (1 / 2),
    p95Latency := h.percentile (19 / 20), p99Latency := h.percentile (99 / 100),
    minLatency := h.min, maxLatency := h.max } := by
  have hhalf : (0.50 : ℚ) = 1 / 2 := by norm_num
  have h95 : (0.95 : ℚ) = 19 / 20 := by norm_num
  have h99 : (0.99 : ℚ) = 99 / 100 := by norm_num
  unfold withLatencies
  rw [hhalf, h95, h99, Histogram.percentile?_eq hne (by norm_num),
    Histogram.percentile?_eq hne (by norm_num), Histogram.percentile?_eq hne (by norm_num)]
  rfl

theorem inOrder_withLatencies (run : RunData ℚ) (hne : h.count ≠ 0) :
    ∃ changed, run.withLatencies h = some changed ∧ changed.InOrder ∧
      changed.opsTput = run.opsTput ∧ changed.dataTput = run.dataTput ∧
      changed.recordsTput = run.recordsTput := by
  have hmean := Histogram.mean_mem_Icc hne
  refine ⟨_, withLatencies_eq hne, ⟨?_, ?_, ?_, ?_, hmean.1, hmean.2⟩, rfl, rfl, rfl⟩
  · rw [← Histogram.percentile_zero hne]
    exact Histogram.percentile_mono (by norm_num) (by norm_num) (by norm_num)
  · exact Histogram.percentile_mono (by norm_num) (by norm_num) (by norm_num)
  · exact Histogram.percentile_mono (by norm_num) (by norm_num) (by norm_num)
  · rw [← Histogram.percentile_one hne]
    exact Histogram.percentile_mono (by norm_num) (by norm_num) (by norm_num)

end RunData

namespace Summary

def means (s : Summary ℚ) : RunData ℚ where
  opsTput := s.opsTput.mean
  dataTput := s.dataTput.mean
  recordsTput := s.recordsTput.mean
  meanLatency := s.meanLatency.mean
  medianLatency := s.medianLatency.mean
  p95Latency := s.p95Latency.mean
  p99Latency := s.p99Latency.mean
  minLatency := s.minLatency.mean
  maxLatency := s.maxLatency.mean

variable [SquareRoot ℚ] {runs : List (RunData ℚ)} {f : RunData ℚ → ℚ}

theorem min_le_mean (hne : runs ≠ []) (h : ∀ run ∈ runs, run.minLatency ≤ f run) :
    (extreme Min.min (runs.map RunData.minLatency)).mean ≤
      (Sample.meanConf (runs.map f)).mean := by
  rw [Sample.mean_meanConf]
  apply Sample.le_mean (by simpa using hne)
  rw [List.forall_mem_map]
  intro run hrun
  exact (extreme_min_le (List.mem_map_of_mem hrun)).trans (h run hrun)

theorem mean_le_max (hne : runs ≠ []) (h : ∀ run ∈ runs, f run ≤ run.maxLatency) :
    (Sample.meanConf (runs.map f)).mean ≤
      (extreme Max.max (runs.map RunData.maxLatency)).mean := by
  rw [Sample.mean_meanConf]
  apply Sample.mean_le (by simpa using hne)
  rw [List.forall_mem_map]
  intro run hrun
  exact (h run hrun).trans (le_extreme_max (List.mem_map_of_mem hrun))

theorem inOrder_means_ofRuns (hne : runs ≠ []) (h : ∀ run ∈ runs, run.InOrder) :
    (ofRuns runs).means.InOrder where
  min_le_median := min_le_mean hne fun run hrun => (h run hrun).min_le_median
  median_le_p95 := Sample.mean_meanConf_mono fun run hrun => (h run hrun).median_le_p95
  p95_le_p99 := Sample.mean_meanConf_mono fun run hrun => (h run hrun).p95_le_p99
  p99_le_max := mean_le_max hne fun run hrun => (h run hrun).p99_le_max
  min_le_mean := min_le_mean hne fun run hrun => (h run hrun).min_le_mean
  mean_le_max := mean_le_max hne fun run hrun => (h run hrun).mean_le_max

end Summary

/-- Latencies that are taken from the histograms of reads and writes together, not both of which are
empty, are in order, and throughputs stay. A summary of runs whose latencies are in order has them
in order too. -/
theorem latencies_inOrder [SquareRoot ℚ] :
    (∀ (run : RunData ℚ) (reads writes : LatencyBuckets),
      reads.latency.length = reads.count.length → writes.latency.length = writes.count.length →
      (∃ n ∈ reads.count ++ writes.count, 0 < n) →
      ∃ a b changed, Histogram.ofBuckets reads.latency reads.count = .ok a ∧
        Histogram.ofBuckets writes.latency writes.count = .ok b ∧
        run.withLatencies (a.merge b) = some changed ∧ changed.InOrder ∧
        changed.opsTput = run.opsTput ∧ changed.dataTput = run.dataTput ∧
        changed.recordsTput = run.recordsTput) ∧
    ∀ runs : List (RunData ℚ), runs ≠ [] → (∀ run ∈ runs, run.InOrder) →
      (Summary.ofRuns runs).means.InOrder := by
  refine ⟨?_, fun runs => Summary.inOrder_means_ofRuns⟩
  rintro run reads writes hreads hwrites ⟨n, hn, hpos⟩
  obtain ⟨a, ha, hacount⟩ := Histogram.exists_ofBuckets hreads
  obtain ⟨b, hb, hbcount⟩ := Histogram.exists_ofBuckets hwrites
  have hne : (a.merge b).count ≠ 0 := by
    have hle := List.le_sum_of_mem hn
    rw [List.sum_append] at hle
    rw [Histogram.count_merge]
    omega
  obtain ⟨changed, hchanged⟩ := RunData.inOrder_withLatencies run hne
  exact ⟨a, b, changed, ha, hb, hchanged⟩

/-- A run whose latencies are recomputed, summarized with a slower one. -/
theorem latencies_inOrder_twoRuns :
    letI : SquareRoot ℚ := ⟨Rat.sqrt⟩
    let run : RunData ℚ := ⟨5, 6, 7, 0, 0, 0, 0, 0, 0⟩
    let slow : RunData ℚ := ⟨1, 2, 3, 50, 40, 60, 70, 30, 80⟩
    slow.InOrder ∧ ∃ a b changed, Histogram.ofBuckets [20, 10, 20] [1, 2, 0] = .ok a ∧
      Histogram.ofBuckets [30] [1] = .ok b ∧ run.withLatencies (a.merge b) = some changed ∧
      changed.InOrder ∧ changed.recordsTput = 7 ∧
      (Summary.ofRuns [changed, slow]).means.InOrder := by
  let _ : SquareRoot ℚ := ⟨Rat.sqrt⟩
  intro run slow
  have hslow : slow.InOrder := by constructor <;> norm_num [slow]
  obtain ⟨hbuckets, hruns⟩ := latencies_inOrder
  obtain ⟨a, b, changed, ha, hb, hchanged, horder, -, -, hrecords⟩ :=
    hbuckets run ⟨[20, 10, 20], [1, 2, 0]⟩ ⟨[30], [1]⟩ rfl rfl ⟨1, by simp, one_pos⟩
  exact ⟨hslow, a, b, changed, ha, hb, hchanged, horder, hrecords,
    hruns [changed, slow] (List.cons_ne_nil _ _) (by simp [horder, hslow])⟩

end ClusterBench
