import ClusterBench.Results.RunData
import ClusterBench.Results.Statistics

/-!
# Summaries of the runs of a test

Throughputs and latencies are averaged over the runs; the least and the greatest latency are the
extremes of all runs.
-/

namespace ClusterBench

structure Summary (α : Type) where
  runs : Nat
  opsTput : MeanConf α
  dataTput : MeanConf α
  recordsTput : MeanConf α
  meanLatency : MeanConf α
  medianLatency : MeanConf α
  p95Latency : MeanConf α
  p99Latency : MeanConf α
  minLatency : MeanConf α
  maxLatency : MeanConf α
deriving DecidableEq

namespace MeanConf

def toJson (m : MeanConf Binary64) : Json.Value :=
  .object [("mean", .real m.mean), ("ci", .real m.ci)]

open Json.Decoder in
def decode : Json.Decoder (MeanConf Binary64) :=
  record
    [field "mean" .fault real fun x r => { r with mean := x },
     field "ci" .fault real fun x r => { r with ci := x }]
    ⟨.zero, .zero⟩

end MeanConf

inductive Latency
  | mean
  | median
  | p95
  | p99
  | max
deriving DecidableEq

namespace Latency

def all : List Latency := [mean, median, p95, p99, max]

def label : Latency → String
  | mean => "Mean"
  | median => "Median"
  | p95 => "P95"
  | p99 => "P99"
  | max => "Max"

def labels : List (String × Latency) := all.map fun l => (l.label, l)

def suffix : Latency → String
  | mean => "meanLat"
  | median => "lat50"
  | p95 => "lat95"
  | p99 => "lat99"
  | max => "maxLat"

end Latency

namespace Summary

section

variable {α : Type} [Arithmetic α]

/-- Combines values from left to right; zero for none. -/
def extreme (choose : α → α → α) : List α → MeanConf α
  | [] => ⟨((0 : Nat) : α), ((0 : Nat) : α)⟩
  | v :: values => ⟨values.foldl choose v, ((0 : Nat) : α)⟩

def ofRuns [SquareRoot α] (runs : List (RunData α)) : Summary α :=
  let metric (f : RunData α → α) := Sample.meanConf (runs.map f)
  { runs := runs.length
    opsTput := metric RunData.opsTput
    dataTput := metric RunData.dataTput
    recordsTput := metric RunData.recordsTput
    meanLatency := metric RunData.meanLatency
    medianLatency := metric RunData.medianLatency
    p95Latency := metric RunData.p95Latency
    p99Latency := metric RunData.p99Latency
    minLatency := extreme Min.min (runs.map RunData.minLatency)
    maxLatency := extreme Max.max (runs.map RunData.maxLatency) }

end

def latency {α : Type} (s : Summary α) : Latency → MeanConf α
  | .mean => s.meanLatency
  | .median => s.medianLatency
  | .p95 => s.p95Latency
  | .p99 => s.p99Latency
  | .max => s.maxLatency

def names : List String :=
  ["ops_tput", "data_tput", "records_tput", "mean_latency", "median_latency", "p95_latency",
   "p99_latency", "min_latency", "max_latency"]

def toList {α : Type} (s : Summary α) : List (MeanConf α) :=
  [s.opsTput, s.dataTput, s.recordsTput, s.meanLatency, s.medianLatency, s.p95Latency,
   s.p99Latency, s.minLatency, s.maxLatency]

def toJson (s : Summary Binary64) : Json.Value :=
  .object (("runs", .word s.runs) :: names.zip (s.toList.map MeanConf.toJson))

open Json.Decoder in
def decode : Json.Decoder (Summary Binary64) :=
  record
    [field "runs" .fault word fun x r => { r with runs := x },
     field "ops_tput" .fault MeanConf.decode fun x r => { r with opsTput := x },
     field "data_tput" .fault MeanConf.decode fun x r => { r with dataTput := x },
     field "records_tput" .fault MeanConf.decode fun x r => { r with recordsTput := x },
     field "mean_latency" .fault MeanConf.decode fun x r => { r with meanLatency := x },
     field "median_latency" .fault MeanConf.decode fun x r => { r with medianLatency := x },
     field "p95_latency" .fault MeanConf.decode fun x r => { r with p95Latency := x },
     field "p99_latency" .fault MeanConf.decode fun x r => { r with p99Latency := x },
     field "min_latency" .fault MeanConf.decode fun x r => { r with minLatency := x },
     field "max_latency" .fault MeanConf.decode fun x r => { r with maxLatency := x }]
    (ofRuns [])

end Summary

end ClusterBench
