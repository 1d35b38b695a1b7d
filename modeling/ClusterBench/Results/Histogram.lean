import ClusterBench.Binary64.Arithmetic
import ClusterBench.Binary64.Decimal
import ClusterBench.Failure

/-!
# Histograms

A histogram holds each observed value with the number of times it was observed: values increase
and counts are positive, so that two histograms are equal exactly when they hold the same
observations. `observations` is the sorted list of them. Percentiles interpolate between the two
closest ranks of that list and the distribution counts it, both without writing it out.
-/

namespace ClusterBench

/-- Values with the number of times each was observed. -/
abbrev Buckets := List (Nat × Nat)

namespace Buckets

def Ordered (buckets : Buckets) : Prop :=
  buckets.Pairwise (fun a b => a.1 < b.1) ∧ ∀ b ∈ buckets, 0 < b.2

def add (value count : Nat) : Buckets → Buckets
  | [] => [(value, count)]
  | (v, n) :: rest =>
    if value < v then (value, count) :: (v, n) :: rest
    else if value = v then (v, n + count) :: rest
    else (v, n) :: add value count rest

theorem lt_of_mem_add {value count low : Nat} {buckets : Buckets} (hv : low < value)
    (h : ∀ b ∈ buckets, low < b.1) : ∀ b ∈ add value count buckets, low < b.1 := by
  induction buckets with
  | nil => simpa [add] using hv
  | cons head rest ih =>
    obtain ⟨v, n⟩ := head
    simp only [List.forall_mem_cons] at h
    simp only [add]
    split
    · simpa [hv] using h
    · split
      · simpa using h
      · simpa using ⟨h.1, by simpa using ih h.2⟩

theorem Ordered.add {buckets : Buckets} (h : buckets.Ordered) (value : Nat) {count : Nat}
    (hc : 0 < count) : (buckets.add value count).Ordered := by
  induction buckets with
  | nil => simpa [Buckets.add, Ordered] using hc
  | cons head rest ih =>
    obtain ⟨v, n⟩ := head
    obtain ⟨hp, hn⟩ := h
    simp only [List.pairwise_cons, List.forall_mem_cons] at hp hn
    have ih := ih ⟨hp.2, hn.2⟩
    simp only [Buckets.add]
    split
    · rename_i hlt
      refine ⟨?_, ?_⟩
      · simp only [List.pairwise_cons, List.forall_mem_cons]
        exact ⟨⟨hlt, fun b hb => Nat.lt_trans hlt (hp.1 b hb)⟩, hp⟩
      · simp only [List.forall_mem_cons]
        exact ⟨hc, hn⟩
    · split
      · refine ⟨?_, ?_⟩
        · simpa only [List.pairwise_cons] using hp
        · simp only [List.forall_mem_cons]
          exact ⟨by omega, hn.2⟩
      · refine ⟨?_, ?_⟩
        · simp only [List.pairwise_cons]
          exact ⟨lt_of_mem_add (by omega) hp.1, ih.1⟩
        · simp only [List.forall_mem_cons]
          exact ⟨hn.1, ih.2⟩

end Buckets

structure Histogram where
  buckets : Buckets
  ordered : buckets.Ordered

namespace Histogram

@[ext] theorem ext {a b : Histogram} (h : a.buckets = b.buckets) : a = b := by
  cases a; cases b; cases h; rfl

instance : DecidableEq Histogram := fun a b =>
  if h : a.buckets = b.buckets then .isTrue (ext h) else .isFalse fun e => h (e ▸ rfl)

def empty : Histogram := ⟨[], by simp [Buckets.Ordered]⟩

def add (h : Histogram) (value count : Nat) : Histogram :=
  if hc : 0 < count then ⟨h.buckets.add value count, h.ordered.add value hc⟩ else h

def increment (h : Histogram) (value : Nat) : Histogram := h.add value 1

def ofList (values : List Nat) : Histogram := values.foldl increment empty

/-- Adds buckets in any order, with any counts. -/
def addAll (h : Histogram) (buckets : Buckets) : Histogram :=
  buckets.foldl (fun h b => h.add b.1 b.2) h

/-- The histogram of parallel lists of values and counts. -/
def ofBuckets (values counts : List Nat) : Except Failure Histogram :=
  if values.length = counts.length then .ok (empty.addAll (values.zip counts))
  else .error (.refuse (.unequalBuckets values.length counts.length))

def merge (a b : Histogram) : Histogram := a.addAll b.buckets

def isEmpty (h : Histogram) : Bool := h.buckets.isEmpty

def observations (h : Histogram) : List Nat := h.buckets.flatMap fun b => List.replicate b.2 b.1

def count (h : Histogram) : Nat := h.buckets.foldr (fun b total => b.2 + total) 0

/-- The number of observations, if they can be counted. -/
def total (h : Histogram) : Except Failure Nat := inWord h.count

/-- The observation at a rank, found by walking the buckets. -/
def atRank : Buckets → Nat → Option Nat
  | [], _ => none
  | (value, count) :: rest, rank =>
    if rank < count then some value else atRank rest (rank - count)

section Statistics

variable {α : Type} [Arithmetic α]

def sum (h : Histogram) : α :=
  h.buckets.foldl (fun total b => total + (b.1 : α) * (b.2 : α)) ((0 : Nat) : α)

/-- Undefined for an empty histogram. -/
def mean (h : Histogram) : α :=
  if h.count = 0 then Arithmetic.undefined else h.sum / (h.count : α)

def min (h : Histogram) : α :=
  match h.buckets.head? with
  | some b => (b.1 : α)
  | none => Arithmetic.undefined

def max (h : Histogram) : α :=
  match h.buckets.getLast? with
  | some b => (b.1 : α)
  | none => Arithmetic.undefined

/-- The percentile `p`, between nought and one, interpolated between the two closest ranks; zero
for an empty histogram. Nothing for another `p`, and for a rank that rounding puts out of range. -/
def percentile? (h : Histogram) (p : α) : Option α :=
  if Arithmetic.le ((0 : Nat) : α) p && Arithmetic.le p ((1 : Nat) : α) then
    if h.count = 0 then some ((0 : Nat) : α)
    else do
      let rank := p * ((h.count - 1 : Nat) : α)
      let below := Arithmetic.floor rank
      let left ← atRank h.buckets below
      let right ← atRank h.buckets (Arithmetic.ceil rank)
      return (left : α) + ((right : α) - (left : α)) * (rank - (below : α))
  else none

/-- Each value of the buckets with the fraction of `total` seen up to it. -/
def fractions (total : Nat) : Nat → Buckets → List (Nat × α)
  | _, [] => []
  | seen, (value, count) :: rest =>
    (value, ((seen + count : Nat) : α) / (total : α)) :: fractions total (seen + count) rest

/-- Each value with the fraction of observations that are not above it. -/
def cdf (h : Histogram) : List (Nat × α) := fractions h.count 0 h.buckets

end Statistics

/-- A column of the overview: at least six characters wide. -/
def column (name : String) (x : Binary64) : String :=
  let text := x.round.plain
  s!"{name}=" ++ text ++ String.ofList (List.replicate (6 - text.length) ' ')

def overview (h : Histogram) : String :=
  let percentile (p : Binary64) := (h.percentile? p).getD .nan
  " ".intercalate [column "min" h.min, column "max" h.max, column "avg" h.mean,
    column "p50" (percentile 0.5), column "p95" (percentile 0.95), column "p99" (percentile 0.99)]

end Histogram

end ClusterBench
