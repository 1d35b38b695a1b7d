import ClusterBench.Proofs.Results.ExactStatistics
import ClusterBench.Proofs.Results.Histogram

/-!
# Percentiles interpolate between ranks

A percentile is found by walking the buckets, which comes to the same as taking the observations at
the two closest ranks of the sorted list. Between two ranks it moves from the one observation to the
other, so it grows with the rank, from the least observation to the greatest one.
-/

namespace ClusterBench

open scoped ExactArithmetic

def interpolate (value : ℕ → ℚ) (rank : ℚ) : ℚ :=
  value ⌊rank⌋₊ + (value ⌈rank⌉₊ - value ⌊rank⌋₊) * (rank - ⌊rank⌋₊)

theorem interpolate_natCast (value : ℕ → ℚ) (n : ℕ) : interpolate value n = value n := by
  rw [interpolate, Nat.floor_natCast, Nat.ceil_natCast, sub_self, sub_self, zero_mul, add_zero]

section Interpolation

variable {value : ℕ → ℚ} {last : ℕ} {r s : ℚ}

theorem interpolate_mem_Icc (hvalue : MonotoneOn value (Set.Iic last)) (hr : 0 ≤ r)
    (hlast : r ≤ last) : interpolate value r ∈ Set.Icc (value ⌊r⌋₊) (value ⌈r⌉₊) := by
  have hceil : ⌈r⌉₊ ≤ last := Nat.ceil_le.mpr hlast
  have hends : value ⌊r⌋₊ ≤ value ⌈r⌉₊ :=
    hvalue ((Nat.floor_le_ceil r).trans hceil) hceil (Nat.floor_le_ceil r)
  have hstart : 0 ≤ r - ⌊r⌋₊ := sub_nonneg.mpr (Nat.floor_le hr)
  have hend : r - ⌊r⌋₊ ≤ 1 := by linarith [Nat.lt_floor_add_one r]
  have hrise : 0 ≤ value ⌈r⌉₊ - value ⌊r⌋₊ := sub_nonneg.mpr hends
  unfold interpolate
  constructor
  · exact le_add_of_nonneg_right (mul_nonneg hrise hstart)
  · linarith [mul_le_of_le_one_right hrise hend]

/-- Ranks on either side of a whole rank are told apart by it; between two whole ranks the value
moves along a line. -/
theorem interpolate_mono (hvalue : MonotoneOn value (Set.Iic last)) (hr : 0 ≤ r) (hrs : r ≤ s)
    (hlast : s ≤ last) : interpolate value r ≤ interpolate value s := by
  have hs : 0 ≤ s := hr.trans hrs
  have hrmem := interpolate_mem_Icc hvalue hr (hrs.trans hlast)
  have hsmem := interpolate_mem_Icc hvalue hs hlast
  have hceil : ⌈s⌉₊ ≤ last := Nat.ceil_le.mpr hlast
  by_cases hapart : ⌈r⌉₊ ≤ ⌊s⌋₊
  · have hfloor : ⌊s⌋₊ ≤ last := (Nat.floor_le_ceil s).trans hceil
    exact hrmem.2.trans ((hvalue (hapart.trans hfloor) hfloor hapart).trans hsmem.1)
  · have hfloors : ⌊r⌋₊ = ⌊s⌋₊ := by
      have := Nat.floor_mono hrs
      have := Nat.ceil_le_floor_add_one r
      omega
    have hceils : ⌈r⌉₊ = ⌈s⌉₊ := by
      have := Nat.ceil_mono hrs
      have := Nat.ceil_le_floor_add_one s
      omega
    have hrise : 0 ≤ value ⌈s⌉₊ - value ⌊s⌋₊ := sub_nonneg.mpr (hsmem.1.trans hsmem.2)
    unfold interpolate
    rw [hfloors, hceils]
    linarith [mul_le_mul_of_nonneg_left hrs hrise]

end Interpolation

namespace Buckets

theorem expand_append (a b : Buckets) : expand (a ++ b) = expand a ++ expand b :=
  List.flatMap_append

/-- Walking the buckets up to a rank finds what stands there in the list of all observations. -/
theorem atRank_eq (buckets : Buckets) (rank : ℕ) :
    Histogram.atRank buckets rank = buckets.expand[rank]? := by
  induction buckets generalizing rank with
  | nil => rfl
  | cons b buckets ih =>
    rw [Histogram.atRank, expand_cons]
    split_ifs with hlt
    · rw [List.getElem?_append_left (by simpa using hlt), List.getElem?_replicate, if_pos hlt]
    · rw [ih, List.getElem?_append_right (by simpa using hlt), List.length_replicate]

end Buckets

namespace Histogram

variable (h : Histogram)

def valueAt (rank : ℕ) : ℚ := h.observations.getD rank 0

variable {h}

theorem atRank_of_lt {rank : ℕ} (hrank : rank < h.count) :
    ∃ v : ℕ, atRank h.buckets rank = some v ∧ (v : ℚ) = h.valueAt rank := by
  rw [count_eq_length] at hrank
  refine ⟨h.observations[rank], ?_, ?_⟩
  · rw [Buckets.atRank_eq]
    exact List.getElem?_eq_getElem hrank
  · rw [valueAt, List.getD_eq_getElem _ _ hrank]

theorem valueAt_monotoneOn : MonotoneOn h.valueAt (Set.Iic (h.count - 1)) := by
  intro r hr s hs hrs
  rcases hrs.eq_or_lt with rfl | hlt
  · exact le_rfl
  have hslt : s < h.observations.length := by
    rw [← count_eq_length]
    have : s ≤ h.count - 1 := hs
    omega
  have hsorted := List.pairwise_iff_getElem.mp h.ordered.pairwise_expand
  rw [valueAt, valueAt, List.getD_eq_getElem _ _ hslt, List.getD_eq_getElem _ _ (hlt.trans hslt)]
  exact_mod_cast hsorted r s (hlt.trans hslt) hslt hlt

theorem buckets_ne_nil (hne : h.count ≠ 0) : h.buckets ≠ [] := by
  intro hnil
  rw [count, hnil] at hne
  exact hne rfl

theorem min_eq (hne : h.count ≠ 0) : (h.min : ℚ) = h.valueAt 0 := by
  obtain ⟨b, rest, hb⟩ := List.exists_cons_of_ne_nil (buckets_ne_nil hne)
  have hpos : 0 < b.2 := h.ordered.2 b (by simp [hb])
  have hfirst : h.observations.head? = some b.1 := by
    rw [observations_eq, hb, Buckets.head?_expand_cons hpos]
  rw [min, valueAt, List.getD_eq_getElem?_getD, ← List.head?_eq_getElem?, hfirst, hb]
  rfl

theorem max_eq (hne : h.count ≠ 0) : (h.max : ℚ) = h.valueAt (h.count - 1) := by
  obtain ⟨init, b, hb⟩ := (List.eq_nil_or_concat' h.buckets).resolve_left (buckets_ne_nil hne)
  have hpos : 0 < b.2 := h.ordered.2 b (by simp [hb])
  have hlast : h.observations.getLast? = some b.1 := by
    rw [observations_eq, hb, Buckets.expand_append, Buckets.expand_cons, Buckets.expand_nil,
      List.append_nil, List.getLast?_append, List.getLast?_replicate, if_neg hpos.ne']
    rfl
  rw [max, valueAt, List.getD_eq_getElem?_getD, count_eq_length, ← List.getLast?_eq_getElem?,
    hlast, hb, List.getLast?_concat]
  rfl

theorem sum_eq : (h.sum : ℚ) = (h.observations.map Nat.cast).sum := by
  have hall (buckets : Buckets) (start : ℚ) :
      buckets.foldl (fun total b => total + (b.1 : ℚ) * (b.2 : ℚ)) start =
        start + (buckets.expand.map Nat.cast).sum := by
    induction buckets generalizing start with
    | nil => simp
    | cons b buckets ih => simp [ih, add_assoc, mul_comm]
  rw [sum, hall, Nat.cast_zero, zero_add, observations_eq]

theorem mean_eq (hne : h.count ≠ 0) :
    (h.mean : ℚ) = (h.observations.map Nat.cast).sum / h.observations.length := by
  rw [mean, if_neg hne, sum_eq, count_eq_length]

variable (h) in
def percentile (p : ℚ) : ℚ := interpolate h.valueAt (p * (h.count - 1 : ℕ))

section Percentile

variable {p q : ℚ}

theorem rank_mem_Icc (hp : p ∈ Set.Icc 0 1) (last : ℕ) : p * last ∈ Set.Icc (0 : ℚ) last :=
  ⟨mul_nonneg hp.1 (Nat.cast_nonneg _), mul_le_of_le_one_left (Nat.cast_nonneg _) hp.2⟩

theorem ceil_rank_lt (hne : h.count ≠ 0) (hp : p ∈ Set.Icc 0 1) :
    ⌈p * (h.count - 1 : ℕ)⌉₊ < h.count :=
  (Nat.ceil_le.mpr (rank_mem_Icc hp _).2).trans_lt (Nat.sub_one_lt hne)

theorem floor_rank_lt (hne : h.count ≠ 0) (hp : p ∈ Set.Icc 0 1) :
    ⌊p * (h.count - 1 : ℕ)⌋₊ < h.count := (Nat.floor_le_ceil _).trans_lt (ceil_rank_lt hne hp)

theorem percentile?_eq (hne : h.count ≠ 0) (hp : p ∈ Set.Icc 0 1) :
    h.percentile? p = some (h.percentile p) := by
  obtain ⟨left, hleft, hleft'⟩ := atRank_of_lt (floor_rank_lt hne hp)
  obtain ⟨right, hright, hright'⟩ := atRank_of_lt (ceil_rank_lt hne hp)
  have hrange : (Arithmetic.le ((0 : ℕ) : ℚ) p && Arithmetic.le p ((1 : ℕ) : ℚ)) = true := by
    simpa using hp
  unfold percentile?
  rw [if_pos hrange, if_neg hne]
  simp only [ExactArithmetic.floor_eq, ExactArithmetic.ceil_eq, hleft, hright]
  rw [percentile, interpolate, ← hleft', ← hright']
  rfl

theorem percentile_mono (hp : 0 ≤ p) (hpq : p ≤ q) (hq : q ≤ 1) :
    h.percentile p ≤ h.percentile q :=
  interpolate_mono valueAt_monotoneOn (mul_nonneg hp (Nat.cast_nonneg _))
    (mul_le_mul_of_nonneg_right hpq (Nat.cast_nonneg _))
    (mul_le_of_le_one_left (Nat.cast_nonneg _) hq)

theorem percentile_zero (hne : h.count ≠ 0) : h.percentile 0 = h.min := by
  rw [min_eq hne, percentile, zero_mul]
  exact_mod_cast interpolate_natCast h.valueAt 0

theorem percentile_one (hne : h.count ≠ 0) : h.percentile 1 = h.max := by
  rw [max_eq hne, percentile, one_mul, interpolate_natCast]

theorem percentile_mem_Icc (hne : h.count ≠ 0) (hp : p ∈ Set.Icc 0 1) :
    h.percentile p ∈ Set.Icc (h.min : ℚ) h.max := by
  rw [← percentile_zero hne, ← percentile_one hne]
  exact ⟨percentile_mono le_rfl hp.1 hp.2, percentile_mono hp.1 hp.2 le_rfl⟩

end Percentile

theorem cast_mem_Icc {v : ℕ} (hv : v ∈ h.observations) :
    (v : ℚ) ∈ Set.Icc (h.valueAt 0) (h.valueAt (h.count - 1)) := by
  obtain ⟨i, hi, rfl⟩ := List.getElem_of_mem hv
  have hle : i ≤ h.count - 1 := by
    rw [count_eq_length]
    omega
  have hvalue : h.valueAt i = h.observations[i] := by rw [valueAt, List.getD_eq_getElem _ _ hi]
  rw [← hvalue]
  exact ⟨valueAt_monotoneOn (Nat.zero_le _) hle (Nat.zero_le _),
    valueAt_monotoneOn hle (Set.mem_Iic.mpr le_rfl) hle⟩

theorem mean_mem_Icc (hne : h.count ≠ 0) : (h.mean : ℚ) ∈ Set.Icc (h.min : ℚ) h.max := by
  have hobserved : h.observations.map (Nat.cast : ℕ → ℚ) ≠ [] := by
    rwa [Ne, List.map_eq_nil_iff, ← List.length_eq_zero_iff, ← count_eq_length]
  have hbounds : ∀ v ∈ h.observations.map (Nat.cast : ℕ → ℚ),
      v ∈ Set.Icc (h.valueAt 0) (h.valueAt (h.count - 1)) :=
    List.forall_mem_map.mpr fun _ hv => cast_mem_Icc hv
  rw [mean_eq hne, min_eq hne, max_eq hne, ← List.length_map (Nat.cast : ℕ → ℚ)]
  exact ⟨Sample.le_mean hobserved fun v hv => (hbounds v hv).1,
    Sample.mean_le hobserved fun v hv => (hbounds v hv).2⟩

/-- A percentile of a histogram that holds something interpolates between the two closest ranks of
all that was observed, put in order. It grows from the least observation to the greatest one. -/
theorem percentile?_interpolates {r : Recipe} (hbuild : r.build = .ok h) (hne : r.observed ≠ 0) :
    (∀ p ∈ Set.Icc (0 : ℚ) 1, ∃ left right : ℕ,
      let observations := r.observed.sort
      let rank := p * (observations.length - 1)
      observations[⌊rank⌋₊]? = some left ∧ observations[⌈rank⌉₊]? = some right ∧
        h.percentile? p = some (left + (right - left) * (rank - ⌊rank⌋₊))) ∧
      (∀ p ∈ Set.Icc (0 : ℚ) 1, ∃ x ∈ Set.Icc (h.min : ℚ) h.max, h.percentile? p = some x) ∧
      h.percentile? 0 = some (h.min : ℚ) ∧ h.percentile? 1 = some (h.max : ℚ) ∧
      ∀ p q : ℚ, 0 ≤ p → p ≤ q → q ≤ 1 →
        ∃ x y, h.percentile? p = some x ∧ h.percentile? q = some y ∧ x ≤ y := by
  have hholds := Recipe.holds_of_build hbuild
  have hcount : h.count ≠ 0 := by
    rw [hholds.count, hholds.observations, Multiset.length_sort]
    exact Multiset.card_pos.mpr hne |>.ne'
  refine ⟨?_, ?_, ?_, ?_, ?_⟩
  · intro p hp
    have hrank : p * (h.count - 1 : ℕ) = p * (h.observations.length - 1) := by
      rw [Nat.cast_pred (Nat.pos_of_ne_zero hcount), hholds.count]
    obtain ⟨left, hleft, hleft'⟩ := atRank_of_lt (floor_rank_lt hcount hp)
    obtain ⟨right, hright, hright'⟩ := atRank_of_lt (ceil_rank_lt hcount hp)
    rw [Buckets.atRank_eq, ← observations_eq, hrank] at hleft hright
    refine ⟨left, right, ?_⟩
    rw [← hholds.observations]
    refine ⟨hleft, hright, ?_⟩
    rw [percentile?_eq hcount hp, percentile, interpolate, ← hleft', ← hright', hrank]
  · intro p hp
    exact ⟨h.percentile p, percentile_mem_Icc hcount hp, percentile?_eq hcount hp⟩
  · rw [percentile?_eq hcount (by norm_num), percentile_zero hcount]
  · rw [percentile?_eq hcount (by norm_num), percentile_one hcount]
  · intro p q hp hpq hq
    exact ⟨h.percentile p, h.percentile q, percentile?_eq hcount ⟨hp, hpq.trans hq⟩,
      percentile?_eq hcount ⟨hp.trans hpq, hq⟩, percentile_mono hp hpq hq⟩

/-- Merged buckets with an empty one among them; the median lies between two of them. -/
theorem percentile?_interpolates_merged :
    let r : Recipe := .merge (.ofBuckets [30, 10, 20] [1, 2, 0]) (.ofList [50])
    ∃ h, r.build = .ok h ∧ r.observed ≠ 0 ∧ h.percentile? (1 / 2 : ℚ) = some 20 ∧
      h.percentile? (0 : ℚ) = some h.min ∧ h.percentile? (1 : ℚ) = some h.max ∧
      ∃ y, h.percentile? (9 / 10 : ℚ) = some y ∧ 20 ≤ y := by
  intro r
  obtain ⟨h, hbuild⟩ : ∃ h, r.build = .ok h := ⟨_, rfl⟩
  have hne : r.observed ≠ 0 := by decide
  have hsorted : r.observed.sort = [10, 10, 30, 50] := by
    rw [← (Recipe.holds_of_build hbuild).observations]
    cases hbuild
    rfl
  obtain ⟨hbetween, -, hzero, hone, hmono⟩ := percentile?_interpolates hbuild hne
  have hmedian : h.percentile? (1 / 2 : ℚ) = some 20 := by
    obtain ⟨left, right, hleft, hright, hmedian⟩ := hbetween (1 / 2) (by norm_num)
    have hfloor : ⌊(3 / 2 : ℚ)⌋₊ = 1 := by norm_num
    have hceil : ⌈(3 / 2 : ℚ)⌉₊ = 2 := by norm_num
    have hrank : (1 / 2 : ℚ) * (r.observed.sort.length - 1) = 3 / 2 := by
      norm_num [hsorted]
    rw [hrank, hsorted, hfloor] at hleft
    rw [hrank, hsorted, hceil] at hright
    cases hleft
    cases hright
    rw [hmedian, hrank, hfloor]
    norm_num
  obtain ⟨x, y, hx, hy, hxy⟩ := hmono (1 / 2) (9 / 10) (by norm_num) (by norm_num) (by norm_num)
  cases hmedian.symm.trans hx
  exact ⟨h, hbuild, hne, hmedian, hzero, hone, y, hy, hxy⟩

end Histogram

end ClusterBench
