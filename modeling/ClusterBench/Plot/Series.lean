import ClusterBench.Plot.Loading

/-!
# Series

Lines and bars ready to be drawn. Latencies are recorded in microseconds and drawn in
milliseconds, throughput is drawn in millions.
-/

namespace ClusterBench

structure Series (α : Type) where
  label : String
  x : List α
  y : List α
  /-- Half the confidence interval of each `y`. -/
  ci : Option (List α)

namespace Series

variable {α : Type} [Arithmetic α]

def million : α := ((1000000 : Nat) : α)

def microsPerMilli : α := ((1000 : Nat) : α)

def length (s : Series α) : Nat := s.y.length

def isEmpty (s : Series α) : Bool := s.y.isEmpty

def ofSamples (label : String) (samples : List (α × α × α)) : Series α :=
  ⟨label, samples.map (·.1), samples.map (·.2.1), some (samples.map (·.2.2))⟩

/-- The fraction of observations up to each value, values divided by `scale`. -/
def latencyCdf (label : String) (h : Histogram) (scale : α) : Except Failure (Series α) := do
  let _ ← h.total
  let points : List (Nat × α) := h.cdf
  return ⟨label, points.map fun p => (p.1 : α) / scale, points.map (·.2), none⟩

def zeroEnds (ys : List α) : List α :=
  match ys with
  | [] => []
  | [_] => [((0 : Nat) : α)]
  | _ :: rest => ((0 : Nat) : α) :: (rest.dropLast ++ [((0 : Nat) : α)])

def throughputTimeline (label : String) (times counts : List α) (offset : α) (zero : Bool) :
    Series α :=
  let ys := counts.map (· / million)
  ⟨label, times.map (· + offset), if zero then zeroEnds ys else ys, none⟩

def cacheTimeline (log : CacheLog) : List (Series Binary64) :=
  let series (label : String) (column : CacheSample → Binary64) : Series Binary64 :=
    ⟨label, log.map CacheSample.time, log.map column, none⟩
  [series "Cache occupancy" CacheSample.cacheOccupancy,
   series "Local store occupancy" CacheSample.localStoreOccupancy,
   series "Local store evictable" CacheSample.localStoreEvictable,
   series "Global store queue" CacheSample.globalStoreQueue]

def summaryOf (db : Database) (config : PlotConfig) (metric : Metric) (point : Point)
    (iat : Binary64) : Except Failure (Summary Binary64) :=
  let id := config.testId metric point iat
  match db.get? id (some point.resFile) with
  | some entry => .ok entry.summary
  | none => .error (.refuse (.noResults id.text point.resFile))

/-- A line for each point of each metric, with a sample for each inter-arrival time. -/
def latencyThroughput (db : Database) (config : PlotConfig) (metrics : List Metric)
    (latency : Latency) : Except Failure (List (Series Binary64)) := do
  let lines ← metrics.mapM fun metric => metric.points.mapM fun point => do
    let samples ← point.iats.mapM fun iat => do
      let summary ← summaryOf db config metric point iat
      let lat := (summary.latency latency).scaled microsPerMilli
      return ((summary.recordsTput.scaled million).mean, lat.mean, lat.ci)
    return ofSamples s!"{metric.label} {point.val}" samples
  return lines.flatten

/-- Bars for each metric, with a sample for each point at its first inter-arrival time. -/
def throughputBars (db : Database) (config : PlotConfig) (metrics : List Metric) :
    Except Failure (List (Series Binary64)) :=
  metrics.mapM fun metric => do
    let samples ← metric.points.mapM fun point =>
      match point.iats with
      | [] => .error (.refuse (.pointWithoutIat point.val metric.label))
      | iat :: _ => do
        let summary ← summaryOf db config metric point iat
        let tput := summary.recordsTput.scaled million
        return (Binary64.ofNat point.val, tput.mean, tput.ci)
    return ofSamples metric.label samples

/-- Stairs through points: behind each point but the last, up to the next `y`. -/
def stairs : List (α × α) → List (α × α)
  | [] => []
  | [p] => [p, (p.1, ((1 : Nat) : α))]
  | p :: q :: rest => p :: (p.1, q.2) :: stairs (q :: rest)

/-- Stairs that go up at each `x` to the next `y` and end at one. There have to be as many `y` as
`x`, at least. -/
def stepUp (x y : List α) : Except Failure (List α × List α) :=
  if x.length ≤ y.length then .ok (stairs (x.zip y)).unzip else .error .broken

end Series

/-- Where grouped bars stand: group `i` of series `k` at `leftBlank + i + k * width`. -/
structure BarLayout (α : Type) where
  leftBlank : α
  width : α

namespace BarLayout

variable {α : Type} [Arithmetic α]

def default : BarLayout α := ⟨0.3, 0.2⟩

def positions (l : BarLayout α) (series groups : Nat) : List α :=
  (List.range groups).map fun (group : Nat) => l.leftBlank + (group : α) + (series : α) * l.width

def ticks (l : BarLayout α) (seriesCount groups : Nat) : List α :=
  (List.range groups).map fun (group : Nat) =>
    (group : α) + (seriesCount : α) * l.width / ((2 : Nat) : α) + l.leftBlank / ((2 : Nat) : α)

end BarLayout

end ClusterBench
