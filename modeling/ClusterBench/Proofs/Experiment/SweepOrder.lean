import Mathlib
import ClusterBench.Experiment.Sweep

/-!
# The order of the tests of a sweep

A sweep runs through the product of its lists, test types outermost and runs innermost, with the
inter-arrival times of the load that it is at. So its tests are numbered in mixed radix, where the
digit of the inter-arrival time has a radix of its own for each load. The numbering uses each
position once, whether lists are empty or hold a value twice.
-/

namespace ClusterBench

/-- Indices number a list of some size: each index has a place with a member, and each place has
exactly one index. -/
structure Numbers {ι α : Type} (as : List α) (size : ℕ) (place : ι → ℕ) (member : ι → α) :
    Prop where
  length_eq : as.length = size
  getElem?_place : ∀ i, as[place i]? = some (member i)
  existsUnique : ∀ k < size, ∃! i, place i = k

namespace Numbers

section Blocks

variable {α β : Type} {size : α → ℕ} {as : List α}

/-- Where the block of a member begins when blocks of given sizes follow each other. -/
def blockStart (size : α → ℕ) (as : List α) (j : ℕ) : ℕ := ((as.take j).map size).sum

@[simp] theorem blockStart_zero : blockStart size as 0 = 0 := rfl

@[simp] theorem blockStart_cons_succ (a : α) (j : ℕ) :
    blockStart size (a :: as) (j + 1) = size a + blockStart size as j := rfl

theorem blockStart_const (n : ℕ) {j : ℕ} (hj : j ≤ as.length) :
    blockStart (fun _ => n) as j = j * n := by
  rw [blockStart, List.map_const', List.sum_replicate, List.length_take_of_le hj, smul_eq_mul]

theorem getElem?_flatMap {f : α → List β} (hsize : ∀ a ∈ as, (f a).length = size a) {j i : ℕ}
    (hj : j < as.length) (hi : i < size as[j]) :
    (as.flatMap f)[blockStart size as j + i]? = (f as[j])[i]? := by
  induction as generalizing j with
  | nil => exact absurd hj (Nat.not_lt_zero j)
  | cons a as ih =>
    rw [List.forall_mem_cons] at hsize
    rw [List.flatMap_cons]
    cases j with
    | zero =>
      have hblock : i < (f a).length := hsize.1.symm ▸ hi
      rw [blockStart_zero, Nat.zero_add, List.getElem?_append_left hblock]
      rfl
    | succ j =>
      have hrest := ih hsize.2 (Nat.lt_of_succ_lt_succ hj) hi
      rw [blockStart_cons_succ, List.getElem?_append_right (by omega), hsize.1, Nat.add_assoc,
        Nat.add_sub_cancel_left, hrest]
      rfl

theorem exists_block {k : ℕ} (hk : k < (as.map size).sum) :
    ∃ (j : ℕ) (hj : j < as.length), ∃ i < size as[j], blockStart size as j + i = k := by
  induction as generalizing k with
  | nil => exact absurd hk (Nat.not_lt_zero k)
  | cons a as ih =>
    rw [List.map_cons, List.sum_cons] at hk
    by_cases hfirst : k < size a
    · exact ⟨0, Nat.zero_lt_succ _, k, hfirst, Nat.zero_add k⟩
    · obtain ⟨j, hj, i, hi, hplace⟩ := ih (k := k - size a) (by omega)
      refine ⟨j + 1, Nat.succ_lt_succ hj, i, hi, ?_⟩
      rw [blockStart_cons_succ]
      omega

/-- No place belongs to two blocks. -/
theorem block_unique {j j' i i' : ℕ} (hj : j < as.length) (hj' : j' < as.length)
    (hi : i < size as[j]) (hi' : i' < size as[j'])
    (h : blockStart size as j + i = blockStart size as j' + i') : j = j' ∧ i = i' := by
  induction as generalizing j j' with
  | nil => exact absurd hj (Nat.not_lt_zero j)
  | cons a as ih =>
    cases j with
    | zero =>
      cases j' with
      | zero => simpa using h
      | succ j' =>
        have hfirst : i < size a := hi
        rw [blockStart_zero, blockStart_cons_succ] at h
        omega
    | succ j =>
      cases j' with
      | zero =>
        have hfirst : i' < size a := hi'
        rw [blockStart_zero, blockStart_cons_succ] at h
        omega
      | succ j' =>
        rw [blockStart_cons_succ, blockStart_cons_succ, Nat.add_assoc, Nat.add_assoc,
          Nat.add_left_cancel_iff] at h
        obtain ⟨rfl, rfl⟩ :=
          ih (Nat.lt_of_succ_lt_succ hj) (Nat.lt_of_succ_lt_succ hj') hi hi' h
        exact ⟨rfl, rfl⟩

end Blocks

variable {α β ι κ : Type}

section Indices

variable {as : List α} {size : ℕ} {place : ι → ℕ} {member : ι → α}
  (h : Numbers as size place member)

include h

theorem place_lt (i : ι) : place i < size := by
  rw [← h.length_eq]
  exact (List.getElem?_eq_some_iff.mp (h.getElem?_place i)).1

/-- The same numbering by indices of another kind. -/
theorem reindex {size' : ℕ} {place' : κ → ℕ} {member' : κ → α} (e : κ ≃ ι)
    (hsize : size = size') (hplace : ∀ i, place (e i) = place' i)
    (hmember : ∀ i, member (e i) = member' i) : Numbers as size' place' member' where
  length_eq := h.length_eq.trans hsize
  getElem?_place i := by
    rw [← hplace, ← hmember]
    exact h.getElem?_place (e i)
  existsUnique k hk := by
    have hunique := h.existsUnique k (hsize ▸ hk)
    simpa only [hplace] using e.existsUnique_congr_right.mpr hunique

end Indices

theorem map (g : α → β) (as : List α) :
    Numbers (as.map g) as.length (fun i : Fin as.length => i.val) fun i => g as[i] where
  length_eq := List.length_map g
  getElem?_place i := by
    rw [List.getElem?_map, List.getElem?_eq_getElem i.isLt]
    rfl
  existsUnique k hk := ⟨⟨k, hk⟩, rfl, fun i hi => Fin.ext hi⟩

/-- A loop around numbered lists of any sizes. -/
theorem flatMap {as : List α} {f : α → List β} (size : α → ℕ) {κ : Fin as.length → Type}
    {place : ∀ j, κ j → ℕ} {member : ∀ j, κ j → β}
    (h : ∀ j, Numbers (f as[j]) (size as[j]) (place j) (member j)) :
    Numbers (as.flatMap f) (as.map size).sum
      (fun i : Σ j, κ j => blockStart size as i.1 + place i.1 i.2) fun i => member i.1 i.2 := by
  have hsize : ∀ a ∈ as, (f a).length = size a := by
    intro a ha
    obtain ⟨j, hj, rfl⟩ := List.getElem_of_mem ha
    exact (h ⟨j, hj⟩).length_eq
  refine ⟨?_, ?_, ?_⟩
  · rw [List.length_flatMap, List.map_congr_left hsize]
  · rintro ⟨j, i⟩
    rw [getElem?_flatMap hsize j.isLt ((h j).place_lt i)]
    exact (h j).getElem?_place i
  · intro k hk
    obtain ⟨j, hj, i, hi, hplace⟩ := exists_block hk
    obtain ⟨index, hindex, hunique⟩ := (h ⟨j, hj⟩).existsUnique i hi
    refine ⟨⟨⟨j, hj⟩, index⟩, ?_, ?_⟩
    · rw [← hplace, ← hindex]
    · rintro ⟨⟨j', hj'⟩, index'⟩ hplace'
      obtain ⟨rfl, hsame⟩ := block_unique hj' hj ((h ⟨j', hj'⟩).place_lt index') hi
        (hplace'.trans hplace.symm)
      rw [hunique index' hsame]

/-- A loop around numbered lists of one size. -/
theorem flatMap_const {as : List α} {f : α → List β} {size : ℕ} {place : κ → ℕ}
    {member : Fin as.length → κ → β} (h : ∀ j, Numbers (f as[j]) size place (member j)) :
    Numbers (as.flatMap f) (as.length * size)
      (fun i : Fin as.length × κ => i.1 * size + place i.2) fun i => member i.1 i.2 := by
  refine (flatMap (fun _ => size) h).reindex (Equiv.sigmaEquivProd _ _).symm ?_ ?_ ?_
  · rw [List.map_const', List.sum_replicate, smul_eq_mul]
  · rintro ⟨j, i⟩
    exact congrArg (· + place i) (blockStart_const size j.isLt.le)
  · exact fun _ => rfl

end Numbers

namespace SweepConfig

structure Choice (sweep : SweepConfig) where
  testType : Fin sweep.testTypes.length
  load : Fin sweep.loads.length
  filesPerClient : Fin sweep.filesPerClient.length
  testPrefix : Fin sweep.testPrefixes.length
  recordSize : Fin sweep.recordSizes.length
  iat : Fin sweep.loads[load].iats.length
  testRun : Fin sweep.testRuns.length

namespace Choice

variable {sweep : SweepConfig} (c : sweep.Choice)

def point (total : ℕ) : TestPoint where
  testType := sweep.testTypes[c.testType]
  testPrefix := sweep.testPrefixes[c.testPrefix]
  batchSize := sweep.loads[c.load].batchSize
  writeRatio := sweep.loads[c.load].writeRatio
  filesPerClient := sweep.filesPerClient[c.filesPerClient]
  recordSize := sweep.recordSizes[c.recordSize]
  iat := sweep.loads[c.load].iats[c.iat]
  testRun := sweep.testRuns[c.testRun]
  clientsPerMachine := sweep.clientsPerMachine
  totalClients := total
  testDuration := sweep.testDuration
  warmup := sweep.warmup

/-- The number of tests with all earlier test types, with all earlier loads of the test type and
with all earlier choices from the other lists. -/
def position : ℕ :=
  let files := sweep.filesPerClient.length
  let prefixes := sweep.testPrefixes.length
  let records := sweep.recordSizes.length
  let runs := sweep.testRuns.length
  let times := sweep.loads.map fun load => load.iats.length
  c.testType * files * prefixes * records * runs * times.sum +
    files * prefixes * records * runs * (times.take c.load).sum +
    (((c.filesPerClient * prefixes + c.testPrefix) * records + c.recordSize) *
      sweep.loads[c.load].iats.length + c.iat) * runs + c.testRun

def nested : sweep.Choice ≃ Fin sweep.testTypes.length × Σ load : Fin sweep.loads.length,
    Fin sweep.filesPerClient.length × Fin sweep.testPrefixes.length ×
      Fin sweep.recordSizes.length × Fin sweep.loads[load].iats.length ×
        Fin sweep.testRuns.length where
  toFun c := ⟨c.testType, c.load, c.filesPerClient, c.testPrefix, c.recordSize, c.iat, c.testRun⟩
  invFun := fun ⟨testType, load, filesPerClient, testPrefix, recordSize, iat, testRun⟩ =>
    ⟨testType, load, filesPerClient, testPrefix, recordSize, iat, testRun⟩

end Choice

variable (sweep : SweepConfig)

def testsOfLoad (load : LoadConfig) : ℕ :=
  sweep.filesPerClient.length * (sweep.testPrefixes.length * (sweep.recordSizes.length *
    (load.iats.length * sweep.testRuns.length)))

theorem sum_testsOfLoad (loads : List LoadConfig) : (loads.map sweep.testsOfLoad).sum =
    sweep.filesPerClient.length * sweep.testPrefixes.length * sweep.recordSizes.length *
      sweep.testRuns.length * (loads.map fun load => load.iats.length).sum := by
  rw [← List.sum_map_mul_left]
  apply congrArg
  apply List.map_congr_left
  intro load _
  rw [testsOfLoad]
  ring

/-- The choices number the tests. Each loop of the sweep adds a digit in front. -/
theorem numbers_points (total : ℕ) : Numbers (sweep.points total)
    (sweep.testTypes.length * sweep.testPrefixes.length * sweep.recordSizes.length *
      sweep.filesPerClient.length * sweep.testRuns.length *
      (sweep.loads.map fun load => load.iats.length).sum)
    (fun c : sweep.Choice => c.position) fun c => c.point total := by
  unfold points
  -- Only the size of the block of a load depends on where the loop is.
  refine Numbers.reindex (Numbers.flatMap_const fun testType =>
    Numbers.flatMap sweep.testsOfLoad fun load =>
    Numbers.flatMap_const fun filesPerClient =>
    Numbers.flatMap_const fun testPrefix =>
    Numbers.flatMap_const fun recordSize =>
    Numbers.flatMap_const fun iat =>
    Numbers.map _ sweep.testRuns) Choice.nested ?_ ?_ fun _ => rfl
  · rw [sum_testsOfLoad]
    ring
  · intro c
    rw [sum_testsOfLoad]
    simp only [Choice.nested, Equiv.coe_fn_mk, Numbers.blockStart]
    rw [sum_testsOfLoad, Choice.position, List.map_take]
    ring

/-- The tests of a sweep are the product of its lists, each combination of indices once: the one at
a position has exactly the values that the indices of that position choose. -/
theorem points_inOrder (total : ℕ) :
    (sweep.points total).length =
      sweep.testTypes.length * sweep.testPrefixes.length * sweep.recordSizes.length *
        sweep.filesPerClient.length * sweep.testRuns.length *
        (sweep.loads.map fun load => load.iats.length).sum ∧
      (∀ c : sweep.Choice, (sweep.points total)[c.position]? = some (c.point total)) ∧
      ∀ k : Fin (sweep.points total).length, ∃! c : sweep.Choice, c.position = k := by
  have hnumbers := sweep.numbers_points total
  refine ⟨hnumbers.length_eq, hnumbers.getElem?_place, ?_⟩
  intro k
  exact hnumbers.existsUnique k (hnumbers.length_eq ▸ k.isLt)

end SweepConfig

end ClusterBench
