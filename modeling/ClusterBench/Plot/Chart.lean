import ClusterBench.Plot.Series
import ClusterBench.Plot.Style

/-!
# Charts

A figure becomes one chart, or one chart for each latency that it asks for.
-/

namespace ClusterBench

inductive ChartKind
  | lines
  | bars
  | cdf
deriving DecidableEq

def ChartKind.label : ChartKind → String
  | lines => "Lines"
  | bars => "Bars"
  | cdf => "Cdf"

structure Chart where
  name : String
  kind : ChartKind
  xLabel : String
  yLabel : String
  logX : Bool := false
  logY : Bool := false
  xMax : Option Binary64 := none
  yMax : Option Binary64 := none
  markers : Bool := false
  series : List (Series Binary64)

namespace Chart

def latencyThroughput (db : Database) (config : PlotConfig) (name : String)
    (metrics : List Metric) (logY : Bool) (yMax : Option Binary64) (latency : Latency) :
    Except Failure Chart := do
  let series ← Series.latencyThroughput db config metrics latency
  return { name := s!"{name}-{latency.suffix}", kind := .lines, xLabel := Style.throughputLabel,
           yLabel := Style.latencyLabel latency, logY, yMax, markers := true, series }

def latencyCdf (input : HistogramInput) : Filing (Series Binary64) := do
  let histogram ← Filing.within s!"load histograms of {input.runDir}"
    (HistogramFile.ofRun input.runDir)
  Filing.lift (Series.latencyCdf input.label histogram Series.microsPerMilli)

def timeline (input : TimelineInput) : Filing (Series Binary64) := do
  let file ← HistogramFile.load input.path
  let log ← Filing.lift file.tputLog
  return Series.throughputTimeline input.label log.times log.counts input.offset input.zeroEnds

def ofFigure (config : PlotConfig) (db : Database) : Figure → Filing (List Chart)
  | .latencyThroughput name metrics latencies logY yMax =>
    Filing.lift (latencies.mapM (latencyThroughput db config name metrics logY yMax))
  | .throughputBars name metrics xLabel logY => do
    let series ← Filing.lift (Series.throughputBars db config metrics)
    return [{ name, kind := .bars, xLabel, yLabel := Style.throughputLabel, logY, series }]
  | .latencyCdf name inputs logX => do
    let series ← inputs.mapM latencyCdf
    return [{ name, kind := .cdf, xLabel := "Latency (ms)", yLabel := Style.cdfLabel, logX,
              yMax := some 1.0, series }]
  | .timeline name inputs xMax yMax => do
    let series ← inputs.mapM timeline
    return [{ name, kind := .lines, xLabel := Style.timeLabel, yLabel := Style.throughputLabel,
              xMax, yMax, series }]
  | .cacheTimeline name path startDiff xMax => do
    let log ← CacheLog.load path startDiff
    return [{ name, kind := .lines, xLabel := Style.timeLabel, yLabel := "Percentage", xMax,
              yMax := some 100.0, series := Series.cacheTimeline log }]

end Chart

end ClusterBench
