import ClusterBench.Plot.Series
import ClusterBench.Proofs.Binary64.Order
import ClusterBench.Proofs.Computations
import ClusterBench.Proofs.Results.Distributions

/-!
# Stairs

Stairs through points come to each place twice and to each height but the first twice: what stands
at position `k` has the place of point `k / 2` and the height of point `(k + 1) / 2`, where behind
the last point comes the height one. So from one position to the next it is either the place or the
height that stays, and both grow as they do from point to point.

The points of a distribution are in order also where values and fractions are rounded.
-/

namespace ClusterBench

namespace Series

section Generic

variable {α : Type} [Arithmetic α]

/-- No value is greater than a later one, and every value is a number: it compares with itself. -/
def NonDecreasing (xs : List α) : Prop :=
  xs.Pairwise (fun a b => Arithmetic.le a b = true) ∧ ∀ a ∈ xs, Arithmetic.le a a = true

instance (xs : List α) : Decidable (NonDecreasing xs) := inferInstanceAs (Decidable (_ ∧ _))

/-- Stairs through the points with the places `x` and the heights `y`. -/
structure Staircase (x y stepX stepY : List α) : Prop where
  length_x : stepX.length = 2 * x.length
  length_y : stepY.length = 2 * x.length
  nonDecreasing_x : NonDecreasing stepX
  nonDecreasing_y : NonDecreasing stepY
  oneCoordinate : ∀ k, k + 1 < 2 * x.length →
    stepX[k]? = stepX[k + 1]? ∨ stepY[k]? = stepY[k + 1]?
  through : ∀ i, stepX[2 * i]? = x[i]? ∧ stepY[2 * i]? = y[i]?
  first : stepX.head? = x.head? ∧ stepY.head? = y.head?
  last : x ≠ [] → stepX.getLast? = x.getLast? ∧ stepY.getLast? = some ((1 : ℕ) : α)

theorem nonDecreasing_iff {xs : List α} : NonDecreasing xs ↔
    ∀ i j : ℕ, i ≤ j → ∀ a ∈ xs[i]?, ∀ b ∈ xs[j]?, Arithmetic.le a b = true := by
  simp only [NonDecreasing, List.pairwise_iff_getElem, List.forall_mem_iff_getElem, Option.mem_def,
    List.getElem?_eq_some_iff]
  constructor
  · rintro ⟨hpairs, hself⟩ i j hij a ⟨hi, rfl⟩ b ⟨hj, rfl⟩
    rcases hij.eq_or_lt with rfl | hlt
    · exact hself i hi
    · exact hpairs i j hi hj hlt
  · intro h
    exact ⟨fun i j hi hj hlt => h i j hlt.le _ ⟨hi, rfl⟩ _ ⟨hj, rfl⟩,
      fun i hi => h i i le_rfl _ ⟨hi, rfl⟩ _ ⟨hi, rfl⟩⟩

theorem length_stairs (points : List (α × α)) : (stairs points).length = 2 * points.length := by
  fun_induction stairs points with
  | case1 => rfl
  | case2 p => rfl
  | case3 p q rest ih =>
    simp only [List.length_cons] at ih ⊢
    omega

theorem getElem?_fst_stairs (points : List (α × α)) (k : ℕ) :
    ((stairs points).map Prod.fst)[k]? = (points.map Prod.fst)[k / 2]? := by
  fun_induction stairs points generalizing k with
  | case1 => rfl
  | case2 p =>
    match k with
    | 0 | 1 => rfl
    | k + 2 => simp
  | case3 p q rest ih =>
    match k with
    | 0 | 1 => rfl
    | k + 2 => simpa using ih k

/-- One is the height behind the last point. -/
theorem getElem?_snd_stairs (points : List (α × α)) {k : ℕ} (hk : k < 2 * points.length) :
    ((stairs points).map Prod.snd)[k]? =
      (points.map Prod.snd ++ [((1 : ℕ) : α)])[(k + 1) / 2]? := by
  fun_induction stairs points generalizing k with
  | case1 => cases hk
  | case2 p =>
    match k with
    | 0 | 1 => rfl
    | k + 2 => simp at hk
  | case3 p q rest ih =>
    match k with
    | 0 | 1 => rfl
    | k + 2 =>
      have hbehind : k < 2 * (q :: rest).length := by
        simp only [List.length_cons] at hk ⊢
        omega
      have hhalf : (k + 2 + 1) / 2 = (k + 1) / 2 + 1 := by omega
      rw [hhalf]
      simpa using ih hbehind

theorem nonDecreasing_concat {y : List α} {last : α} (hlast : Arithmetic.le last last = true)
    (hy : NonDecreasing y) (hle : ∀ v ∈ y, Arithmetic.le v last = true) :
    NonDecreasing (y ++ [last]) := by
  refine ⟨List.pairwise_append.mpr ⟨hy.1, List.pairwise_singleton _ _, ?_⟩, ?_⟩
  · simpa using hle
  · simpa [or_imp, forall_and, hlast] using hy.2

section Shape

variable {x y : List α} (h : x.length = y.length)

include h

theorem stepUp_eq : stepUp x y =
    .ok ((stairs (x.zip y)).map Prod.fst, (stairs (x.zip y)).map Prod.snd) := by
  rw [stepUp, if_pos h.le, List.unzip_eq_map]

theorem length_stairs_zip : (stairs (x.zip y)).length = 2 * x.length := by
  rw [length_stairs, List.length_zip, h, Nat.min_self]

theorem place_stairs (k : ℕ) : ((stairs (x.zip y)).map Prod.fst)[k]? = x[k / 2]? := by
  rw [getElem?_fst_stairs, List.map_fst_zip h.le]

theorem height_stairs {k : ℕ} (hk : k < 2 * x.length) :
    ((stairs (x.zip y)).map Prod.snd)[k]? = (y ++ [((1 : ℕ) : α)])[(k + 1) / 2]? := by
  rw [getElem?_snd_stairs _ (by rwa [← length_stairs, length_stairs_zip h]), List.map_snd_zip h.ge]

theorem through_stairs (i : ℕ) : ((stairs (x.zip y)).map Prod.fst)[2 * i]? = x[i]? ∧
    ((stairs (x.zip y)).map Prod.snd)[2 * i]? = y[i]? := by
  rw [place_stairs h, Nat.mul_div_cancel_left i two_pos]
  refine ⟨rfl, ?_⟩
  rcases lt_or_ge i y.length with hi | hi
  · have hhalf : (2 * i + 1) / 2 = i := by omega
    rw [height_stairs h (by omega), hhalf, List.getElem?_append_left hi]
  · have hbehind : ((stairs (x.zip y)).map Prod.snd).length ≤ 2 * i := by
      rw [List.length_map, length_stairs_zip h]
      omega
    rw [List.getElem?_eq_none hi, List.getElem?_eq_none hbehind]

theorem nonDecreasing_place (hx : NonDecreasing x) :
    NonDecreasing ((stairs (x.zip y)).map Prod.fst) := by
  rw [nonDecreasing_iff]
  intro i j hij a ha b hb
  rw [place_stairs h] at ha hb
  exact nonDecreasing_iff.mp hx _ _ (Nat.div_le_div_right hij) a ha b hb

theorem nonDecreasing_height (hy : NonDecreasing (y ++ [((1 : ℕ) : α)])) :
    NonDecreasing ((stairs (x.zip y)).map Prod.snd) := by
  rw [nonDecreasing_iff]
  intro i j hij a ha b hb
  have hj : j < 2 * x.length := by
    rw [← length_stairs_zip h, ← List.length_map Prod.snd]
    exact (List.getElem?_eq_some_iff.mp hb).1
  rw [height_stairs h (hij.trans_lt hj)] at ha
  rw [height_stairs h hj] at hb
  exact nonDecreasing_iff.mp hy _ _ (Nat.div_le_div_right (Nat.succ_le_succ hij)) a ha b hb

/-- From an even position to the next one the place stays, and from an odd one the height. -/
theorem oneCoordinate_stairs {k : ℕ} (hk : k + 1 < 2 * x.length) :
    ((stairs (x.zip y)).map Prod.fst)[k]? = ((stairs (x.zip y)).map Prod.fst)[k + 1]? ∨
      ((stairs (x.zip y)).map Prod.snd)[k]? = ((stairs (x.zip y)).map Prod.snd)[k + 1]? := by
  rw [place_stairs h, place_stairs h, height_stairs h (by omega), height_stairs h hk]
  rcases k.even_or_odd' with ⟨m, rfl | rfl⟩
  · have hhalf : 2 * m / 2 = (2 * m + 1) / 2 := by omega
    rw [hhalf]
    exact Or.inl rfl
  · have hhalf : (2 * m + 1 + 1) / 2 = (2 * m + 1 + 1 + 1) / 2 := by omega
    rw [hhalf]
    exact Or.inr rfl

theorem last_stairs (hne : x ≠ []) :
    ((stairs (x.zip y)).map Prod.fst).getLast? = x.getLast? ∧
      ((stairs (x.zip y)).map Prod.snd).getLast? = some ((1 : ℕ) : α) := by
  have hpos := List.length_pos_iff.mpr hne
  have hplace : (2 * x.length - 1) / 2 = x.length - 1 := by omega
  have hheight : (2 * x.length - 1 + 1) / 2 = y.length := by omega
  simp only [List.getLast?_eq_getElem?, List.length_map, length_stairs_zip h]
  rw [place_stairs h, height_stairs h (by omega), hplace, hheight, List.getElem?_concat_length]
  exact ⟨rfl, rfl⟩

theorem staircase_stairs (hone : Arithmetic.le ((1 : ℕ) : α) ((1 : ℕ) : α) = true)
    (hx : NonDecreasing x) (hy : NonDecreasing y)
    (hle : ∀ v ∈ y, Arithmetic.le v ((1 : ℕ) : α) = true) :
    Staircase x y ((stairs (x.zip y)).map Prod.fst) ((stairs (x.zip y)).map Prod.snd) where
  length_x := (List.length_map _).trans (length_stairs_zip h)
  length_y := (List.length_map _).trans (length_stairs_zip h)
  nonDecreasing_x := nonDecreasing_place h hx
  nonDecreasing_y := nonDecreasing_height h (nonDecreasing_concat hone hy hle)
  oneCoordinate _ := oneCoordinate_stairs h
  through := through_stairs h
  first := by simpa only [List.head?_eq_getElem?] using through_stairs h 0
  last := last_stairs h

end Shape

theorem nonDecreasing_map {β : Type} {key : β → ℕ} {f : β → α} {bs : List β}
    (hsorted : bs.Pairwise fun b c => key b < key c)
    (h : ∀ b ∈ bs, ∀ c ∈ bs, key b ≤ key c → Arithmetic.le (f b) (f c) = true) :
    NonDecreasing (bs.map f) := by
  refine ⟨?_, List.forall_mem_map.mpr fun b hb => h b hb b hb le_rfl⟩
  rw [List.pairwise_map]
  exact hsorted.imp_of_mem fun hb hc hlt => h _ hb _ hc hlt.le

theorem latencyCdf_of_lt {h : Histogram} (hcount : h.count < 2 ^ wordBits) (label : String)
    (scale : α) : latencyCdf label h scale =
      .ok ⟨label, h.buckets.map fun b => (b.1 : α) / scale,
        h.buckets.map fun b => (h.cumulative b.1 : α) / (h.count : α), none⟩ := by
  have hcdf : (h.cdf : List (ℕ × α)) =
      h.buckets.map fun b => (b.1, (h.cumulative b.1 : α) / (h.count : α)) := Histogram.cdf_eq h
  rw [latencyCdf, Histogram.total, inWord_eq_ok.mpr ⟨hcount, rfl⟩, ok_bind, hcdf]
  simp only [List.map_map]
  rfl

theorem latencyCdf_of_le {h : Histogram} (hcount : 2 ^ wordBits ≤ h.count) (label : String)
    (scale : α) : latencyCdf label h scale = .error .broken := by
  rw [latencyCdf, Histogram.total, inWord_eq_error.mpr ⟨hcount, rfl⟩]
  rfl

end Generic

end Series

namespace Series

open Binary64

variable {h : Histogram} {scale : Binary64}

theorem nonDecreasing_values (hvalues : ∀ b ∈ h.buckets, b.1 < 2 ^ wordBits)
    (hscale : lt zero scale = true) :
    NonDecreasing (h.buckets.map fun b => (b.1 : Binary64) / scale) := by
  refine nonDecreasing_map h.ordered.1 fun b hb c hc hle => ?_
  have hb := wide_of_word (hvalues b hb)
  have hc := wide_of_word (hvalues c hc)
  rw [natCast_eq]
  exact le_div (ofNat_spec hb).1 (ofNat_spec hc).1 (units_ofNat_mono hle hc) hscale

theorem nonDecreasing_fractions (hcount : h.count < 2 ^ wordBits) : NonDecreasing
    (h.buckets.map fun b => (h.cumulative b.1 : Binary64) / (h.count : Binary64)) := by
  have hcount := wide_of_word hcount
  have hwide (v : ℕ) : h.cumulative v < 2 ^ 128 := (h.cumulative_le_count v).trans_lt hcount
  refine nonDecreasing_map h.ordered.1 fun b hb c _ hle => ?_
  rw [natCast_eq]
  exact le_div_magnitude (ofNat_spec (hwide b.1)).1 (ofNat_spec (hwide c.1)).1
    (units_ofNat_mono (Histogram.cumulative_mono hle) (hwide c.1)) (ofNat_spec hcount).1
    (units_ofNat_pos (Histogram.count_pos_of_mem hb) hcount)

theorem fraction_le_one (hcount : h.count < 2 ^ wordBits) {b : ℕ × ℕ} (hb : b ∈ h.buckets) :
    le ((h.cumulative b.1 : Binary64) / (h.count : Binary64)) (ofNat 1) = true := by
  have hcount := wide_of_word hcount
  have hle := h.cumulative_le_count b.1
  rw [natCast_eq]
  exact div_le_one (ofNat_spec (hle.trans_lt hcount)).1 (ofNat_spec hcount).1
    (units_ofNat_mono hle hcount) (units_ofNat_pos (Histogram.count_pos_of_mem hb) hcount)

theorem one_le_one : le (ofNat 1) (ofNat 1) = true := by
  have hone := (ofNat_spec (Nat.one_lt_two_pow (by decide) : 1 < 2 ^ 128)).1
  exact (le_iff_of_magnitudes hone hone).mpr le_rfl

theorem exists_staircase {x y : List Binary64} (h : x.length = y.length) (hx : NonDecreasing x)
    (hy : NonDecreasing y) (hle : ∀ v ∈ y, le v (ofNat 1) = true) :
    ∃ stepX stepY, stepUp x y = .ok (stepX, stepY) ∧ Staircase x y stepX stepY := by
  refine ⟨_, _, stepUp_eq h, staircase_stairs h ?_ hx hy ?_⟩
  · rw [natCast_eq]
    exact one_le_one
  · rw [natCast_eq]
    exact hle

/-- The stairs through points whose places and heights are in order, the heights being at most one,
are two lists in order with two positions for each point. They start at the first point, lead
through all points one after another, go along one coordinate at a time and end at one above the
last point. So do the stairs through the distribution of any histogram that holds something, as long
as its observations can be counted; otherwise there is no distribution. -/
theorem stepUp_staircase :
    (∀ x y : List Binary64, x.length = y.length → NonDecreasing x → NonDecreasing y →
      (∀ v ∈ y, le v (ofNat 1) = true) →
      ∃ stepX stepY, stepUp x y = .ok (stepX, stepY) ∧ Staircase x y stepX stepY) ∧
    ∀ (label : String) (h : Histogram) (scale : Binary64),
      (2 ^ wordBits ≤ h.count → latencyCdf label h scale = .error .broken) ∧
      (h.count < 2 ^ wordBits → (∀ b ∈ h.buckets, b.1 < 2 ^ wordBits) → h.isEmpty = false →
        lt zero scale = true →
        ∃ s, latencyCdf label h scale = .ok s ∧ s.x ≠ [] ∧
          ∃ stepX stepY, stepUp s.x s.y = .ok (stepX, stepY) ∧
            Staircase s.x s.y stepX stepY) := by
  refine ⟨fun x y => exists_staircase, fun label h scale => ⟨fun hlarge => ?_,
    fun hcount hvalues hne hscale => ⟨_, latencyCdf_of_lt hcount label scale, ?_,
      exists_staircase ?_ (nonDecreasing_values hvalues hscale) (nonDecreasing_fractions hcount)
        (List.forall_mem_map.mpr fun b hb => fraction_le_one hcount hb)⟩⟩⟩
  · exact latencyCdf_of_le hlarge label scale
  · rw [Ne, List.map_eq_nil_iff]
    simpa [Histogram.isEmpty] using hne
  · rw [List.length_map, List.length_map]

/-- Points with a place and a height that repeat, and latencies in thousands. -/
theorem stepUp_staircase_repeatedPlaces :
    let x : List Binary64 := [1.0, 1.0, 2.5]
    let y : List Binary64 := [0.25, 0.75, 0.75]
    let latencies := Histogram.ofList [1000, 2000, 2000, 4000]
    (∃ stepX stepY, stepUp x y = .ok (stepX, stepY) ∧ Staircase x y stepX stepY) ∧
      ∃ s, latencyCdf "mean" latencies (1000.0 : Binary64) = .ok s ∧ s.x ≠ [] ∧
        ∃ stepX stepY, stepUp s.x s.y = .ok (stepX, stepY) ∧
          Staircase s.x s.y stepX stepY := by
  intro x y latencies
  have hlength : x.length = y.length := by simp only [x, y, List.length_cons]
  have hcount : latencies.count < 2 ^ wordBits := by decide +kernel
  have hvalues : ∀ b ∈ latencies.buckets, b.1 < 2 ^ wordBits := by decide +kernel
  have hne : latencies.isEmpty = false := by decide +kernel
  have hscale : lt zero (1000.0 : Binary64) = true := by decide +kernel
  have hx : NonDecreasing x := by decide +kernel
  have hy : NonDecreasing y := by decide +kernel
  have hle : ∀ v ∈ y, le v (ofNat 1) = true := by decide +kernel
  exact ⟨stepUp_staircase.1 x y hlength hx hy hle,
    (stepUp_staircase.2 "mean" latencies 1000.0).2 hcount hvalues hne hscale⟩

/-- The counts of two files are words, but a word does not hold their sum: there is no distribution
of their latencies. -/
theorem latencyCdf_uncounted :
    ∃ reads writes, Histogram.ofBuckets [1] [2 ^ 63] = .ok reads ∧
      Histogram.ofBuckets [2] [2 ^ 63] = .ok writes ∧ (reads.merge writes).isEmpty = false ∧
      lt zero (1.0 : Binary64) = true ∧
      ∀ s, latencyCdf "mean" (reads.merge writes) (1.0 : Binary64) ≠ .ok s := by
  refine ⟨_, _, rfl, rfl, by decide +kernel, by decide +kernel, fun s hs => ?_⟩
  rw [latencyCdf_of_le (by decide +kernel)] at hs
  cases hs

end Series

end ClusterBench
