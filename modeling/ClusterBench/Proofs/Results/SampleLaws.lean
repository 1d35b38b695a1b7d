import ClusterBench.Proofs.Results.ExactStatistics

/-!
# Laws of means and intervals

The interval of a sample is the critical value times the root of its variance, through the root of
its size. With real numbers this holds for samples of at most one value as well, because the
critical value for no degrees of freedom is zero. So mean and interval follow the values when these
are put in another order, shifted or scaled, and summaries of runs do, too.
-/

namespace ClusterBench

open scoped ExactArithmetic

namespace Sample

variable {values values' : List ℝ}

theorem sum_real (values : List ℝ) : sum values = values.sum := by
  rw [sum, List.sum_eq_foldl, Nat.cast_zero, neg_zero]

theorem smallCriticalValues_pos : ∀ t ∈ (smallCriticalValues : List ℝ), 0 < t := by
  simp only [smallCriticalValues, List.forall_mem_cons, List.not_mem_nil, false_imp_iff,
    forall_const, and_true]
  norm_num

@[simp] theorem criticalValue_zero : (criticalValue 0 : ℝ) = 0 := by
  rw [criticalValue, if_pos rfl, Nat.cast_zero]

theorem criticalValue_pos {freedom : ℕ} (h : freedom ≠ 0) : 0 < (criticalValue freedom : ℝ) := by
  unfold criticalValue
  rw [if_neg h]
  split_ifs with htable
  · have hlength : freedom - 1 < (smallCriticalValues : List ℝ).length := by
      simp only [smallCriticalValues, List.length_cons, List.length_nil]
      omega
    rw [List.getD_eq_getElem _ _ hlength]
    exact smallCriticalValues_pos _ (List.getElem_mem hlength)
  all_goals norm_num

theorem criticalValue_nonneg (freedom : ℕ) : 0 ≤ (criticalValue freedom : ℝ) := by
  rcases eq_or_ne freedom 0 with rfl | h
  · rw [criticalValue_zero]
  · exact (criticalValue_pos h).le

noncomputable def scatter (values : List ℝ) : ℝ :=
  (values.map fun v => (v - values.sum / values.length) ^ 2).sum

theorem scatter_nonneg (values : List ℝ) : 0 ≤ scatter values :=
  List.sum_nonneg (List.forall_mem_map.mpr fun _ _ => sq_nonneg _)

theorem scatter_perm (h : values.Perm values') : scatter values = scatter values' := by
  unfold scatter
  rw [h.sum_eq, h.length_eq]
  exact (h.map _).sum_eq

theorem scatter_eq_zero_iff : scatter values = 0 ↔ ∀ v ∈ values, ∀ w ∈ values, v = w := by
  have hsquares : ∀ x ∈ values.map fun v => (v - values.sum / values.length) ^ 2, 0 ≤ x :=
    List.forall_mem_map.mpr fun _ _ => sq_nonneg _
  constructor
  · intro h
    have hmean : ∀ v ∈ values, v = values.sum / values.length := by
      intro v hv
      have hzero := List.all_zero_of_le_zero_le_of_sum_eq_zero hsquares h (List.mem_map_of_mem hv)
      exact sub_eq_zero.mp (pow_eq_zero_iff two_ne_zero |>.mp hzero)
    intro v hv w hw
    rw [hmean v hv, ← hmean w hw]
  · intro h
    apply List.sum_eq_zero
    rw [List.forall_mem_map]
    intro v hv
    have hne := List.ne_nil_of_mem hv
    have hmean : values.sum / values.length = v :=
      le_antisymm (mean_le hne fun w hw => (h w hw v hv).le)
        (le_mean hne fun w hw => (h v hv w hw).le)
    rw [hmean, sub_self, zero_pow two_ne_zero]

theorem mean_map_add (hne : values ≠ []) (c : ℝ) :
    (values.map (· + c)).sum / (values.map (· + c)).length = values.sum / values.length + c := by
  have hlength : (values.length : ℝ) ≠ 0 := by
    exact_mod_cast (List.length_pos_iff.mpr hne).ne'
  rw [List.sum_map_add, List.map_id', List.map_const', List.sum_replicate, List.length_map,
    nsmul_eq_mul, add_div, mul_div_cancel_left₀ _ hlength]

theorem scatter_map_add (values : List ℝ) (c : ℝ) :
    scatter (values.map (· + c)) = scatter values := by
  rcases eq_or_ne values [] with rfl | hne
  · rfl
  · unfold scatter
    rw [mean_map_add hne, List.map_map]
    simp only [Function.comp_def, add_sub_add_right_eq_sub]

theorem sum_map_div (values : List ℝ) (d : ℝ) : (values.map (· / d)).sum = values.sum / d := by
  simp only [div_eq_mul_inv]
  rw [List.sum_map_mul_right, List.map_id']

theorem scatter_map_div (values : List ℝ) (d : ℝ) :
    scatter (values.map (· / d)) = scatter values / d ^ 2 := by
  have hsquare (v : ℝ) : (v / d - values.sum / d / values.length) ^ 2 =
      (v - values.sum / values.length) ^ 2 / d ^ 2 := by
    rw [div_right_comm, ← sub_div, div_pow]
  unfold scatter
  rw [sum_map_div, List.length_map, List.map_map, ← sum_map_div _ (d ^ 2), List.map_map]
  exact congrArg List.sum (List.map_congr_left fun v _ => hsquare v)

/-- One formula for samples of all sizes. -/
theorem meanConf_eq (values : List ℝ) : meanConf values =
    ⟨values.sum / values.length, criticalValue (values.length - 1) *
      √(scatter values / (values.length - 1)) / √values.length⟩ := by
  match values with
  | [] => simp [meanConf]
  | [v] => simp [meanConf]
  | v :: w :: rest =>
    have hvariance : variance (mean (v :: w :: rest)) (v :: w :: rest) =
        scatter (v :: w :: rest) / ((v :: w :: rest).length - 1) := by
      rw [variance, mean, sum_real, sum_real, scatter, Nat.cast_one]
      simp only [sq]
    rw [← hvariance, ← sum_real]
    rfl

theorem meanConf_perm (h : values.Perm values') : meanConf values = meanConf values' := by
  rw [meanConf_eq, meanConf_eq, h.sum_eq, h.length_eq, scatter_perm h]

theorem ci_nonneg (values : List ℝ) : 0 ≤ (meanConf values).ci := by
  rw [meanConf_eq]
  exact div_nonneg (mul_nonneg (criticalValue_nonneg _) (Real.sqrt_nonneg _)) (Real.sqrt_nonneg _)

theorem ci_eq_zero_iff : (meanConf values).ci = 0 ↔ ∀ v ∈ values, ∀ w ∈ values, v = w := by
  rw [meanConf_eq]
  match values with
  | [] => simp
  | [v] => simp
  | v :: w :: rest =>
    rw [← scatter_eq_zero_iff]
    have hfreedom : (v :: w :: rest).length - 1 ≠ 0 := Nat.succ_ne_zero _
    have hsize : (1 : ℝ) < (v :: w :: rest).length := by
      exact_mod_cast Nat.succ_lt_succ (Nat.succ_pos rest.length)
    generalize v :: w :: rest = values at hfreedom hsize ⊢
    have hroot : √(values.length : ℝ) ≠ 0 := Real.sqrt_ne_zero'.mpr (by linarith)
    have hrest : (values.length : ℝ) - 1 ≠ 0 := by linarith
    have hnonneg : 0 ≤ scatter values / (values.length - 1) :=
      div_nonneg (scatter_nonneg values) (by linarith)
    rw [div_eq_zero_iff, or_iff_left hroot, mul_eq_zero,
      or_iff_right (criticalValue_pos hfreedom).ne', Real.sqrt_eq_zero hnonneg, div_eq_zero_iff,
      or_iff_left hrest]

theorem meanConf_map_add (hne : values ≠ []) (c : ℝ) :
    meanConf (values.map (· + c)) = ⟨(meanConf values).mean + c, (meanConf values).ci⟩ := by
  rw [meanConf_eq, meanConf_eq, mean_map_add hne, scatter_map_add, List.length_map]

theorem meanConf_map_div (values : List ℝ) {d : ℝ} (hd : 0 < d) :
    meanConf (values.map (· / d)) = (meanConf values).scaled d := by
  rw [meanConf_eq, meanConf_eq, sum_map_div, scatter_map_div, List.length_map, div_right_comm,
    div_right_comm _ (d ^ 2), Real.sqrt_div' _ (sq_nonneg d), Real.sqrt_sq hd.le, mul_div_assoc',
    div_right_comm _ d]
  rfl

theorem exists_bounds (hne : values ≠ []) : ∃ least ∈ values, ∃ greatest ∈ values,
    ∀ v ∈ values, v ∈ Set.Icc least greatest := by
  have hnonempty : values.toFinset.Nonempty := List.toFinset_nonempty_iff values |>.mpr hne
  obtain ⟨least, hleast, hmin⟩ := values.toFinset.exists_min_image id hnonempty
  obtain ⟨greatest, hgreatest, hmax⟩ := values.toFinset.exists_max_image id hnonempty
  simp only [List.mem_toFinset] at hleast hmin hgreatest hmax
  exact ⟨least, hleast, greatest, hgreatest, fun v hv => ⟨hmin v hv, hmax v hv⟩⟩

theorem mean_mem_Icc {least greatest : ℝ} (hne : values ≠ [])
    (h : ∀ v ∈ values, v ∈ Set.Icc least greatest) :
    (meanConf values).mean ∈ Set.Icc least greatest := by
  rw [meanConf_eq]
  exact ⟨le_mean hne fun v hv => (h v hv).1, mean_le hne fun v hv => (h v hv).2⟩

end Sample

def RunData.map {α β : Type} (f : α → β) (r : RunData α) : RunData β where
  opsTput := f r.opsTput
  dataTput := f r.dataTput
  recordsTput := f r.recordsTput
  meanLatency := f r.meanLatency
  medianLatency := f r.medianLatency
  p95Latency := f r.p95Latency
  p99Latency := f r.p99Latency
  minLatency := f r.minLatency
  maxLatency := f r.maxLatency

namespace Summary

theorem extreme_perm {α : Type} [Arithmetic α] {choose : α → α → α} [Std.Commutative choose]
    [Std.Associative choose] {values values' : List α} (h : values.Perm values') :
    extreme choose values = extreme choose values' := by
  induction h with
  | nil => rfl
  | cons v h _ => rw [extreme, extreme, h.foldl_op_eq]
  | swap v w values =>
    have hcomm : choose w v = choose v w := Std.Commutative.comm w v
    rw [extreme, extreme, List.foldl_cons, List.foldl_cons, hcomm]
  | trans _ _ ih ih' => exact ih.trans ih'

theorem extreme_map_div {choose : ℝ → ℝ → ℝ} {d : ℝ}
    (h : ∀ a b, choose (a / d) (b / d) = choose a b / d) (values : List ℝ) :
    extreme choose (values.map (· / d)) = (extreme choose values).scaled d := by
  cases values with
  | nil => simp [extreme, MeanConf.scaled]
  | cons v values =>
    rw [List.map_cons, extreme, extreme, MeanConf.scaled, List.foldl_map,
      List.foldl_hom (· / d) (fun a b => h a b), Nat.cast_zero, zero_div]

variable {runs runs' : List (RunData ℝ)}

theorem ofRuns_perm (h : runs.Perm runs') : ofRuns runs = ofRuns runs' := by
  have hmetric (f : RunData ℝ → ℝ) :
      Sample.meanConf (runs.map f) = Sample.meanConf (runs'.map f) :=
    Sample.meanConf_perm (h.map f)
  have hmin : extreme min (runs.map RunData.minLatency) =
      extreme min (runs'.map RunData.minLatency) := extreme_perm (h.map _)
  have hmax : extreme max (runs.map RunData.maxLatency) =
      extreme max (runs'.map RunData.maxLatency) := extreme_perm (h.map _)
  unfold ofRuns
  simp only [hmetric, h.length_eq, hmin, hmax]

theorem toList_ofRuns_map_div (runs : List (RunData ℝ)) {d : ℝ} (hd : 0 < d) :
    (ofRuns (runs.map (RunData.map (· / d)))).toList =
      (ofRuns runs).toList.map fun m => m.scaled d := by
  have hvalues (f : RunData ℝ → ℝ) (hf : ∀ run, f (run.map (· / d)) = f run / d) :
      (runs.map (RunData.map (· / d))).map f = (runs.map f).map (· / d) := by
    rw [List.map_map, List.map_map]
    exact List.map_congr_left fun run _ => hf run
  have hmetric (f : RunData ℝ → ℝ) (hf : ∀ run, f (run.map (· / d)) = f run / d) :
      Sample.meanConf ((runs.map (RunData.map (· / d))).map f) =
        (Sample.meanConf (runs.map f)).scaled d := by
    rw [hvalues f hf, Sample.meanConf_map_div _ hd]
  have hmin := extreme_map_div (min_div_div_right hd.le) (runs.map RunData.minLatency)
  have hmax := extreme_map_div (max_div_div_right hd.le) (runs.map RunData.maxLatency)
  rw [← hvalues _ fun _ => rfl] at hmin hmax
  simp only [toList, ofRuns, List.map_cons, List.map_nil, List.cons.injEq]
  exact ⟨hmetric _ fun _ => rfl, hmetric _ fun _ => rfl, hmetric _ fun _ => rfl,
    hmetric _ fun _ => rfl, hmetric _ fun _ => rfl, hmetric _ fun _ => rfl,
    hmetric _ fun _ => rfl, hmin, hmax, trivial⟩

end Summary

namespace Sample

/-- Mean and interval do not depend on the order of the values. The interval is never negative, and
it is zero exactly if all values are equal. The mean lies between the least and the greatest value.
Adding to all values adds to the mean alone; dividing all values divides mean and interval, so it
does not matter whether runs are scaled or their summary. The order of the runs does not matter to
a summary. -/
theorem meanConf_laws :
    (∀ values values' : List ℝ, values.Perm values' → meanConf values = meanConf values') ∧
      (∀ values : List ℝ, 0 ≤ (meanConf values).ci ∧
        ((meanConf values).ci = 0 ↔ ∀ v ∈ values, ∀ w ∈ values, v = w)) ∧
      (∀ values : List ℝ, values ≠ [] → ∃ least ∈ values, ∃ greatest ∈ values,
        (∀ v ∈ values, v ∈ Set.Icc least greatest) ∧
          (meanConf values).mean ∈ Set.Icc least greatest) ∧
      (∀ values : List ℝ, values ≠ [] → ∀ c,
        meanConf (values.map (· + c)) = ⟨(meanConf values).mean + c, (meanConf values).ci⟩) ∧
      (∀ (values : List ℝ) (d : ℝ), 0 < d →
        meanConf (values.map (· / d)) = (meanConf values).scaled d) ∧
      (∀ (runs : List (RunData ℝ)) (d : ℝ), 0 < d →
        (Summary.ofRuns (runs.map (RunData.map (· / d)))).toList =
          (Summary.ofRuns runs).toList.map fun m => m.scaled d) ∧
      ∀ runs runs' : List (RunData ℝ), runs.Perm runs' →
        Summary.ofRuns runs = Summary.ofRuns runs' := by
  refine ⟨fun _ _ => meanConf_perm, fun values => ⟨ci_nonneg values, ci_eq_zero_iff⟩, ?_,
    fun _ => meanConf_map_add, fun values _ => meanConf_map_div values,
    fun runs _ => Summary.toList_ofRuns_map_div runs, fun _ _ => Summary.ofRuns_perm⟩
  intro values hne
  obtain ⟨least, hleast, greatest, hgreatest, hbounds⟩ := exists_bounds hne
  exact ⟨least, hleast, greatest, hgreatest, hbounds, mean_mem_Icc hne hbounds⟩

/-- Three runs with different throughputs, in another order and in other units. -/
theorem meanConf_laws_threeRuns :
    let values : List ℝ := [3, 1, 5]
    let runs : List (RunData ℝ) := [⟨3, 3, 3, 9, 8, 10, 20, 1, 30⟩, ⟨1, 1, 1, 9, 7, 10, 15, 2, 40⟩]
    meanConf values = meanConf [1, 3, 5] ∧ 0 < (meanConf values).ci ∧
      (meanConf values).mean ∈ Set.Icc 1 5 ∧
      meanConf [13, 11, 15] = ⟨(meanConf values).mean + 10, (meanConf values).ci⟩ ∧
      meanConf (values.map (· / 1000)) = (meanConf values).scaled 1000 ∧
      (Summary.ofRuns (runs.map (RunData.map (· / 1000)))).toList =
        (Summary.ofRuns runs).toList.map (fun m => m.scaled 1000) ∧
      Summary.ofRuns runs.reverse = Summary.ofRuns runs := by
  intro values runs
  obtain ⟨hperm, hci, hbetween, hadd, hdiv, hruns, horder⟩ := meanConf_laws
  have hne : values ≠ [] := List.cons_ne_nil _ _
  refine ⟨hperm _ _ (List.Perm.swap _ _ _), ?_, ?_, ?_, hdiv _ _ (by norm_num),
    hruns _ _ (by norm_num), horder _ _ runs.reverse_perm⟩
  · refine (hci values).1.lt_of_ne' fun hzero => ?_
    have hequal := (hci values).2.mp hzero 3 (by simp [values]) 1 (by simp [values])
    norm_num at hequal
  · obtain ⟨least, hleast, greatest, hgreatest, -, hlow, hhigh⟩ := hbetween values hne
    have hrange : ∀ v ∈ values, v ∈ Set.Icc (1 : ℝ) 5 := by
      simp only [values, List.forall_mem_cons]
      norm_num
    exact ⟨(hrange least hleast).1.trans hlow, hhigh.trans (hrange greatest hgreatest).2⟩
  · rw [← hadd values hne]
    norm_num [values]

end Sample

end ClusterBench
