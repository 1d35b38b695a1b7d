import ClusterBench.Json.Decoder
import ClusterBench.Results.Histogram
import ClusterBench.Results.TrailingCommas

/-!
# Histogram files

What the clients of a run leave next to their summary: latencies with their counts, and completed
requests over time. Only the first entry of a file is used.
-/

namespace ClusterBench

structure LatencyBuckets where
  latency : List Nat
  count : List Nat

structure TputLog where
  times : List Binary64
  counts : List Binary64

structure HistogramEntry where
  latencies : Option LatencyBuckets
  tputLog : Option TputLog
  p50 : Option Binary64
  p95 : Option Binary64
  p99 : Option Binary64

abbrev HistogramFile := List HistogramEntry

namespace HistogramFile

open Json.Decoder

def decodeBuckets : Json.Decoder LatencyBuckets :=
  record
    [field "latency" .fault (list word) fun x r => { r with latency := x },
     field "count" .fault (list word) fun x r => { r with count := x }]
    ⟨[], []⟩

def decodeTputLog : Json.Decoder TputLog :=
  record
    [field "TimeSec" .fault (list real) fun x r => { r with times := x },
     field "Counts" .fault (list real) fun x r => { r with counts := x }]
    ⟨[], []⟩

def decodeEntry : Json.Decoder HistogramEntry :=
  record
    [field "Latency Histogram" .default (nullable decodeBuckets) fun x r =>
       { r with latencies := x },
     field "TputLog" .default (nullable decodeTputLog) fun x r => { r with tputLog := x },
     field "50%Lat" .default (nullable real) fun x r => { r with p50 := x },
     field "95%Lat" .default (nullable real) fun x r => { r with p95 := x },
     field "99%Lat" .default (nullable real) fun x r => { r with p99 := x }]
    ⟨none, none, none, none, none⟩

def ofText (text : String) : Except Failure HistogramFile :=
  match Json.Decoder.ofText (list decodeEntry) (TrailingCommas.strip text) with
  | .ok file => .ok file
  | .error fault => .error ((Failure.of (.json fault)).within "parse histograms file")

def firstEntry (file : HistogramFile) : Except Failure HistogramEntry :=
  match file with
  | entry :: _ => .ok entry
  | [] => .error (.refuse .noHistogramEntries)

def histogram (file : HistogramFile) : Except Failure Histogram := do
  match (← file.firstEntry).latencies with
  | some buckets => Histogram.ofBuckets buckets.latency buckets.count
  | none => .error (.refuse .noLatencyHistogram)

def tputLog (file : HistogramFile) : Except Failure TputLog := do
  match (← file.firstEntry).tputLog with
  | some log => .ok log
  | none => .error (.refuse .noThroughputLog)

end HistogramFile

end ClusterBench
