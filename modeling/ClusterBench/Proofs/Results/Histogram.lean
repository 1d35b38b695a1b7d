import Mathlib
import ClusterBench.Results.Histogram

/-!
# Histograms are multisets

However a histogram is put together, it holds the multiset of all that was observed, and nothing
else: its observations are that multiset in increasing order, each stored count is the multiplicity
of its value, and histograms are equal exactly if they hold the same multiset. So it does not matter
in which order and in which groups observations come in.
-/

namespace ClusterBench

namespace Buckets

def expand (buckets : Buckets) : List ℕ := buckets.flatMap fun b => List.replicate b.2 b.1

@[simp] theorem expand_nil : expand [] = [] := rfl

@[simp] theorem expand_cons (b : ℕ × ℕ) (buckets : Buckets) :
    expand (b :: buckets) = List.replicate b.2 b.1 ++ expand buckets := List.flatMap_cons

theorem head?_expand_cons {b : ℕ × ℕ} (h : 0 < b.2) {buckets : Buckets} :
    (expand (b :: buckets)).head? = some b.1 := by
  rw [expand_cons, List.head?_append, List.head?_replicate, if_neg h.ne']
  rfl

theorem mem_expand {v : ℕ} {buckets : Buckets} (h : v ∈ buckets.expand) :
    ∃ b ∈ buckets, b.1 = v := by
  obtain ⟨b, hb, hv⟩ := List.mem_flatMap.mp h
  exact ⟨b, hb, (List.eq_of_mem_replicate hv).symm⟩

theorem expand_add (value count : ℕ) (buckets : Buckets) :
    (buckets.add value count).expand.Perm (List.replicate count value ++ buckets.expand) := by
  induction buckets with
  | nil => simp [add]
  | cons head rest ih =>
    obtain ⟨v, n⟩ := head
    simp only [add]
    split_ifs with hlt heq
    · simp
    · subst heq
      rw [expand_cons, expand_cons, Nat.add_comm n count, List.replicate_add, List.append_assoc]
    · rw [expand_cons, expand_cons]
      exact (ih.append_left (List.replicate n v)).trans (List.perm_append_comm_assoc _ _ _)

namespace Ordered

variable {a b : Buckets}

theorem tail {head : ℕ × ℕ} {rest : Buckets} (h : Ordered (head :: rest)) : Ordered rest :=
  ⟨(List.pairwise_cons.mp h.1).2, fun b hb => h.2 b (List.mem_cons_of_mem _ hb)⟩

/-- The values behind a bucket are greater. -/
theorem lt_of_mem_expand {head : ℕ × ℕ} {rest : Buckets} (h : Ordered (head :: rest)) {v : ℕ}
    (hv : v ∈ expand rest) : head.1 < v := by
  obtain ⟨b, hb, rfl⟩ := mem_expand hv
  exact (List.pairwise_cons.mp h.1).1 b hb

theorem pairwise_expand (h : a.Ordered) : a.expand.Pairwise (· ≤ ·) := by
  induction a with
  | nil => exact List.Pairwise.nil
  | cons head rest ih =>
    rw [expand_cons, List.pairwise_append]
    refine ⟨List.pairwise_replicate_of_refl, ih h.tail, ?_⟩
    intro v hv w hw
    rw [List.eq_of_mem_replicate hv]
    exact (h.lt_of_mem_expand hw).le

/-- A stored count is the multiplicity of its value. -/
theorem count_expand (h : a.Ordered) {bucket : ℕ × ℕ} (hmem : bucket ∈ a) :
    a.expand.count bucket.1 = bucket.2 := by
  induction a with
  | nil => cases hmem
  | cons head rest ih =>
    rw [expand_cons, List.count_append]
    rcases List.mem_cons.mp hmem with rfl | hmem
    · have hrest : bucket.1 ∉ expand rest := fun hv => (h.lt_of_mem_expand hv).false
      rw [List.count_replicate_self, List.count_eq_zero_of_not_mem hrest, Nat.add_zero]
    · have hlt := (List.pairwise_cons.mp h.1).1 bucket hmem
      rw [ih h.tail hmem, List.count_replicate, if_neg (by simpa using hlt.ne), Nat.zero_add]

/-- Buckets can be told from what they expand to: the first value is the least one, and its count
is its multiplicity. -/
theorem eq_of_expand_eq (ha : a.Ordered) (hb : b.Ordered) (h : a.expand = b.expand) : a = b := by
  induction a generalizing b with
  | nil =>
    cases b with
    | nil => rfl
    | cons head rest =>
      have hpos := hb.2 head List.mem_cons_self
      simp [hpos.ne'] at h
  | cons first as ih =>
    cases b with
    | nil =>
      have hpos := ha.2 first List.mem_cons_self
      simp [hpos.ne'] at h
    | cons second bs =>
      have hvalue : first.1 = second.1 := by
        have hfirst := ha.2 first List.mem_cons_self
        have hsecond := hb.2 second List.mem_cons_self
        have hhead := congrArg List.head? h
        rw [head?_expand_cons hfirst, head?_expand_cons hsecond] at hhead
        exact Option.some.inj hhead
      have hcount : first.2 = second.2 := by
        rw [← ha.count_expand List.mem_cons_self, ← hb.count_expand List.mem_cons_self, h, hvalue]
      obtain rfl : first = second := Prod.ext hvalue hcount
      rw [expand_cons, expand_cons] at h
      rw [ih ha.tail hb.tail (List.append_cancel_left h)]

end Ordered

def contents (buckets : Buckets) : Multiset ℕ :=
  (buckets.map fun b => Multiset.replicate b.2 b.1).sum

theorem contents_eq_expand (buckets : Buckets) : buckets.contents = buckets.expand := by
  induction buckets with
  | nil => rfl
  | cons b buckets ih =>
    rw [expand_cons, ← Multiset.coe_add, Multiset.coe_replicate, ← ih]
    exact List.sum_cons

end Buckets

namespace Histogram

theorem observations_eq (h : Histogram) : h.observations = h.buckets.expand := rfl

/-- Histograms that hold the same observations are equal. -/
theorem eq_iff {a b : Histogram} :
    a = b ↔ (a.observations : Multiset ℕ) = (b.observations : Multiset ℕ) := by
  constructor
  · rintro rfl
    rfl
  · intro h
    have hlists : a.buckets.expand = b.buckets.expand :=
      (Multiset.coe_eq_coe.mp h).eq_of_pairwise' a.ordered.pairwise_expand
        b.ordered.pairwise_expand
    exact Histogram.ext (a.ordered.eq_of_expand_eq b.ordered hlists)

theorem coe_observations_add (h : Histogram) (value count : ℕ) :
    ((h.add value count).observations : Multiset ℕ) =
      Multiset.replicate count value + h.observations := by
  unfold add
  split_ifs with hpos
  · rw [observations_eq, Multiset.coe_eq_coe.mpr (h.buckets.expand_add value count),
      ← Multiset.coe_add, Multiset.coe_replicate, observations_eq]
  · obtain rfl : count = 0 := by omega
    rw [Multiset.replicate_zero, zero_add]

@[simp] theorem coe_observations_increment (h : Histogram) (value : ℕ) :
    ((h.increment value).observations : Multiset ℕ) = value ::ₘ h.observations :=
  h.coe_observations_add value 1

theorem coe_observations_addAll (h : Histogram) (buckets : Buckets) :
    ((h.addAll buckets).observations : Multiset ℕ) = h.observations + buckets.contents := by
  induction buckets generalizing h with
  | nil => exact (add_zero _).symm
  | cons b buckets ih =>
    have hrest := ih (h.add b.1 b.2)
    rw [coe_observations_add, add_comm (Multiset.replicate b.2 b.1), add_assoc] at hrest
    exact hrest

@[simp] theorem coe_observations_merge (a b : Histogram) :
    ((a.merge b).observations : Multiset ℕ) = a.observations + b.observations := by
  rw [merge, coe_observations_addAll, Buckets.contents_eq_expand, ← observations_eq]

theorem coe_observations_foldl (h : Histogram) (values : List ℕ) :
    ((values.foldl increment h).observations : Multiset ℕ) = h.observations + values := by
  induction values generalizing h with
  | nil => exact (add_zero _).symm
  | cons v values ih =>
    rw [List.foldl_cons, ih, coe_observations_increment, ← Multiset.cons_coe,
      Multiset.cons_add, Multiset.add_cons]

@[simp] theorem coe_observations_ofList (values : List ℕ) :
    ((ofList values).observations : Multiset ℕ) = values :=
  (coe_observations_foldl empty values).trans (zero_add _)

theorem merge_comm (a b : Histogram) : a.merge b = b.merge a := by
  rw [eq_iff, coe_observations_merge, coe_observations_merge, add_comm]

theorem merge_assoc (a b c : Histogram) : (a.merge b).merge c = a.merge (b.merge c) := by
  simp only [eq_iff, coe_observations_merge, add_assoc]

theorem merge_empty (a : Histogram) : a.merge empty = a := rfl

/-- A histogram shows the observations of a multiset, in order and in number. -/
structure Holds (h : Histogram) (observed : Multiset ℕ) : Prop where
  observations : h.observations = observed.sort
  count : h.count = h.observations.length
  isEmpty : h.isEmpty ↔ h.observations = []
  multiplicity : ∀ b ∈ h.buckets, b.2 = observed.count b.1 ∧ 0 < b.2

theorem count_eq_length (h : Histogram) : h.count = h.observations.length := by
  have hall (buckets : Buckets) :
      buckets.foldr (fun b total => b.2 + total) 0 = buckets.expand.length := by
    induction buckets with
    | nil => rfl
    | cons b buckets ih => simp [ih]
  exact hall h.buckets

theorem isEmpty_iff (h : Histogram) : h.isEmpty ↔ h.observations = [] := by
  rw [isEmpty, List.isEmpty_iff]
  constructor
  · intro hnil
    rw [observations_eq, hnil, Buckets.expand_nil]
  · intro hnil
    have hempty : h = empty := eq_iff.mpr (congrArg _ hnil)
    rw [hempty]
    rfl

theorem holds_iff {h : Histogram} {observed : Multiset ℕ} :
    h.Holds observed ↔ (h.observations : Multiset ℕ) = observed := by
  constructor
  · intro hholds
    rw [hholds.observations, Multiset.sort_eq]
  · rintro rfl
    refine ⟨?_, h.count_eq_length, h.isEmpty_iff, fun b hb => ⟨?_, h.ordered.2 b hb⟩⟩
    · rw [Multiset.coe_sort]
      exact (List.mergeSort_eq_self _ h.ordered.pairwise_expand).symm
    · rw [Multiset.coe_count, observations_eq, h.ordered.count_expand hb]

inductive Recipe
  | new
  | ofList (values : List ℕ)
  | ofBuckets (values counts : List ℕ)
  | increment (r : Recipe) (value : ℕ)
  | merge (a b : Recipe)

namespace Recipe

def build : Recipe → Except Failure Histogram
  | new => .ok empty
  | ofList values => .ok (Histogram.ofList values)
  | ofBuckets values counts => Histogram.ofBuckets values counts
  | increment r value => do return (← r.build).increment value
  | merge a b => do return (← a.build).merge (← b.build)

/-- Everything that is observed on the way: values in lists, each bucket's value as often as it is
counted, single values, and all that goes into either side of a merge. -/
def observed : Recipe → Multiset ℕ
  | new => 0
  | ofList values => values
  | ofBuckets values counts => Buckets.contents (values.zip counts)
  | increment r value => value ::ₘ r.observed
  | merge a b => a.observed + b.observed

def Paired : Recipe → Prop
  | new | ofList _ => True
  | ofBuckets values counts => values.length = counts.length
  | increment r _ => r.Paired
  | merge a b => a.Paired ∧ b.Paired

/-- One case for each operation. -/
theorem build_cases (r : Recipe) :
    (r.Paired ∧ ∃ h, r.build = .ok h ∧ (h.observations : Multiset ℕ) = r.observed) ∨
      (¬r.Paired ∧ ∃ f, r.build = .error f) := by
  induction r with
  | new => exact Or.inl ⟨trivial, empty, rfl, rfl⟩
  | ofList values =>
    exact Or.inl ⟨trivial, Histogram.ofList values, rfl, coe_observations_ofList values⟩
  | ofBuckets values counts =>
    by_cases hlength : values.length = counts.length
    · refine Or.inl ⟨hlength, empty.addAll (values.zip counts), ?_, ?_⟩
      · exact if_pos hlength
      · exact (coe_observations_addAll empty _).trans (zero_add _)
    · exact Or.inr ⟨hlength, _, if_neg hlength⟩
  | increment r value ih =>
    rcases ih with ⟨hpaired, h, hbuild, hobserved⟩ | ⟨hpaired, f, hbuild⟩
    · refine Or.inl ⟨hpaired, h.increment value, by rw [build, hbuild]; rfl, ?_⟩
      rw [coe_observations_increment, hobserved, observed]
    · exact Or.inr ⟨hpaired, f, by rw [build, hbuild]; rfl⟩
  | merge a b iha ihb =>
    rcases iha with ⟨hpaired, h, hbuild, hobserved⟩ | ⟨hpaired, f, hbuild⟩
    · rcases ihb with ⟨hpaired', h', hbuild', hobserved'⟩ | ⟨hpaired', f, hbuild'⟩
      · refine Or.inl ⟨⟨hpaired, hpaired'⟩, h.merge h', by rw [build, hbuild, hbuild']; rfl, ?_⟩
        rw [coe_observations_merge, hobserved, hobserved', observed]
      · exact Or.inr ⟨fun hall => hpaired' hall.2, f, by rw [build, hbuild, hbuild']; rfl⟩
    · exact Or.inr ⟨fun hall => hpaired hall.1, f, by rw [build, hbuild]; rfl⟩

theorem holds_of_build {r : Recipe} {h : Histogram} (hbuild : r.build = .ok h) :
    h.Holds r.observed := by
  rw [holds_iff]
  rcases r.build_cases with ⟨-, h', hbuild', hobserved⟩ | ⟨-, f, herror⟩
  · obtain rfl := Except.ok.inj (hbuild.symm.trans hbuild')
    exact hobserved
  · rw [hbuild] at herror
    cases herror

/-- A histogram can be built unless some buckets lack values or counts. It holds exactly what was
observed on the way, and it is the same histogram on any other way on which the same is observed.
In particular merging does not depend on order and grouping. -/
theorem build_spec (r : Recipe) :
    ((∃ h, r.build = .ok h) ↔ r.Paired) ∧
      (∀ h, r.build = .ok h → h.Holds r.observed) ∧
      (∀ (r' : Recipe) h h', r.build = .ok h → r'.build = .ok h' →
        (h = h' ↔ r.observed = r'.observed)) ∧
      ∀ a b c : Histogram, a.merge b = b.merge a ∧ (a.merge b).merge c = a.merge (b.merge c) ∧
        a.merge empty = a ∧ empty.merge a = a := by
  refine ⟨?_, fun h hbuild => holds_of_build hbuild, ?_, ?_⟩
  · rcases r.build_cases with ⟨hpaired, h, hbuild, -⟩ | ⟨hpaired, f, herror⟩
    · exact iff_of_true ⟨h, hbuild⟩ hpaired
    · refine iff_of_false ?_ hpaired
      rintro ⟨h, hbuild⟩
      rw [hbuild] at herror
      cases herror
  · intro r' h h' hbuild hbuild'
    rw [eq_iff, holds_iff.mp (holds_of_build hbuild), holds_iff.mp (holds_of_build hbuild')]
  · intro a b c
    exact ⟨merge_comm a b, merge_assoc a b c, merge_empty a, (merge_comm empty a).trans rfl⟩

def mixed : Recipe :=
  .merge (.ofBuckets [30, 10, 20, 10] [1, 2, 0, 1]) (.increment (.ofList [30, 5]) 10)

theorem build_spec_mixed : ∃ h, mixed.build = .ok h ∧
    h.observations = [5, 10, 10, 10, 10, 30, 30] ∧ h.count = 7 ∧
      ∃ h', (Recipe.ofList [10, 30, 10, 5, 10, 30, 10]).build = .ok h' ∧ h = h' := by
  obtain ⟨hbuilds, hholds, hsame, -⟩ := build_spec mixed
  obtain ⟨h, hbuild⟩ := hbuilds.mpr (by simp [mixed, Paired])
  have heq : h = Histogram.ofList [10, 30, 10, 5, 10, 30, 10] :=
    (hsame (.ofList _) h _ hbuild rfl).mpr (by decide)
  have hvalues : h.observations = [5, 10, 10, 10, 10, 30, 30] := by
    rw [heq]
    rfl
  refine ⟨h, hbuild, hvalues, ?_, _, rfl, heq⟩
  rw [(hholds h hbuild).count, hvalues]
  rfl

end Recipe

end Histogram

end ClusterBench
