import ClusterBench.Results.Summary
import ClusterBench.TestId

/-!
# Plot configurations

A configuration names results and the figures to draw from them. A metric varies one parameter of
a test over its points; the others come from the point or from the shared defaults.
-/

namespace ClusterBench

structure TestDefaults where
  writeRatio : Nat := 100
  numClients : Nat := 200
  clientsPerMachine : Nat := 10
  batchSize : Nat := 10000
  recordSize : Nat := 16
  filesPerClient : Nat := 1

inductive Param
  | batchSize
  | writeRatio
  | recordSize
  | numClients
  | clientsPerMachine
  | filesPerClient
deriving DecidableEq

namespace Param

def label : Param → String
  | batchSize => "BatchSize"
  | writeRatio => "WriteRatio"
  | recordSize => "RecordSize"
  | numClients => "NumClients"
  | clientsPerMachine => "ClientsPerMachine"
  | filesPerClient => "FilesPerClient"

def labels : List (String × Param) :=
  [batchSize, writeRatio, recordSize, numClients, clientsPerMachine, filesPerClient].map
    fun p => (p.label, p)

end Param

structure Point where
  resFile : String
  prefixText : String
  /-- The value of the metric's parameter. -/
  val : Nat
  numClients : Option Nat
  iats : List Binary64
  /-- Are the latencies computed from the histograms of the run? -/
  fromHistogram : Bool

structure Metric where
  system : DataStore
  label : String
  param : Param
  points : List Point

inductive FigureFormat
  | pdf
  | eps
  | png
deriving DecidableEq

namespace FigureFormat

def label : FigureFormat → String
  | pdf => "Pdf"
  | eps => "Eps"
  | png => "Png"

def labels : List (String × FigureFormat) := [pdf, eps, png].map fun f => (f.label, f)

def suffix : FigureFormat → String
  | pdf => "pdf"
  | eps => "eps"
  | png => "png"

end FigureFormat

structure HistogramInput where
  label : String
  runDir : String

structure TimelineInput where
  label : String
  /-- A histogram file. -/
  path : String
  offset : Binary64
  /-- The first and the last second are only seen in part: are they drawn as zero? -/
  zeroEnds : Bool

inductive Figure
  /-- Latency against throughput, one chart for each latency. -/
  | latencyThroughput (name : String) (metrics : List Metric) (latencies : List Latency)
      (logY : Bool) (yMax : Option Binary64)
  /-- Throughput of each point as grouped bars. -/
  | throughputBars (name : String) (metrics : List Metric) (xLabel : String) (logY : Bool)
  /-- The distribution of the latencies of whole runs. -/
  | latencyCdf (name : String) (inputs : List HistogramInput) (logX : Bool)
  /-- Throughput over time. -/
  | timeline (name : String) (inputs : List TimelineInput) (xMax yMax : Option Binary64)
  /-- Cache statistics over time. -/
  | cacheTimeline (name path : String) (startDiff : Nat) (xMax : Option Binary64)

namespace Figure

def name : Figure → String
  | latencyThroughput name .. | throughputBars name .. | latencyCdf name .. | timeline name ..
  | cacheTimeline name .. => name

def metrics : Figure → List Metric
  | latencyThroughput _ metrics .. | throughputBars _ metrics .. => metrics
  | _ => []

end Figure

structure PlotConfig where
  resultsDir : String := "../experiments/results"
  figDir : String := "figures"
  defaults : TestDefaults := {}
  testRuns : List Nat := [1]
  formats : List FigureFormat := [.pdf, .eps]
  figures : List Figure := []

namespace PlotConfig

def testId (config : PlotConfig) (metric : Metric) (point : Point) (iat : Binary64) : TestId :=
  let d := config.defaults
  let id : TestId :=
    { system := metric.system
      prefixText := point.prefixText
      numClients := point.numClients.getD d.numClients
      clientsPerMachine := d.clientsPerMachine
      batchSize := d.batchSize
      recordSize := d.recordSize
      filesPerClient := d.filesPerClient
      writeRatio := d.writeRatio
      iat }
  match metric.param with
  | .batchSize => { id with batchSize := point.val }
  | .writeRatio => { id with writeRatio := point.val }
  | .recordSize => { id with recordSize := point.val }
  | .numClients => { id with numClients := point.val }
  | .clientsPerMachine => { id with clientsPerMachine := point.val }
  | .filesPerClient => { id with filesPerClient := point.val }

def runDir (config : PlotConfig) (id : TestId) (run : Nat) : String :=
  s!"{config.resultsDir}/{id.system.dirName}/{id.text}/run_{run}"

def figurePaths (config : PlotConfig) (name : String) : List String :=
  config.formats.map fun f => s!"{config.figDir}/{name}.{f.suffix}"

open Json.Decoder

def decodeDefaults : Json.Decoder TestDefaults :=
  record
    [field "write_ratio" .default word fun x r => { r with writeRatio := x },
     field "num_clients" .default word fun x r => { r with numClients := x },
     field "clients_per_machine" .default word fun x r => { r with clientsPerMachine := x },
     field "batch_size" .default word fun x r => { r with batchSize := x },
     field "record_size" .default word fun x r => { r with recordSize := x },
     field "files_per_client" .default word fun x r => { r with filesPerClient := x }]
    {}

def decodePoint : Json.Decoder Point :=
  record
    [field "res_file" .fault text fun x r => { r with resFile := x },
     field "prefix" .fault text fun x r => { r with prefixText := x },
     field "val" .fault word fun x r => { r with val := x },
     field "num_clients" .default (nullable word) fun x r => { r with numClients := x },
     field "iats" .fault (list real) fun x r => { r with iats := x },
     field "from_hist" .default bool fun x r => { r with fromHistogram := x }]
    ⟨"", "", 0, none, [], false⟩

def decodeMetric : Json.Decoder Metric :=
  record
    [field "system" .fault (oneOf DataStore.labels) fun x r => { r with system := x },
     field "label" .fault text fun x r => { r with label := x },
     field "param" .fault (oneOf Param.labels) fun x r => { r with param := x },
     field "points" .fault (list decodePoint) fun x r => { r with points := x }]
    ⟨.kawkab, "", .batchSize, []⟩

def decodeHistogramInput : Json.Decoder HistogramInput :=
  record
    [field "label" .fault text fun x r => { r with label := x },
     field "run_dir" .fault text fun x r => { r with runDir := x }]
    ⟨"", ""⟩

def decodeTimelineInput : Json.Decoder TimelineInput :=
  record
    [field "label" .fault text fun x r => { r with label := x },
     field "path" .fault text fun x r => { r with path := x },
     field "offset_secs" .default real fun x r => { r with offset := x },
     field "zero_ends" .default bool fun x r => { r with zeroEnds := x }]
    ⟨"", "", .zero, false⟩

structure FigureDraft where
  name : String := ""
  metrics : List Metric := []
  latencies : List Latency := Latency.all
  histograms : List HistogramInput := []
  timelines : List TimelineInput := []
  xLabel : String := ""
  path : String := ""
  startDiff : Nat := 0
  logX : Bool := false
  logY : Bool := false
  xMax : Option Binary64 := none
  yMax : Option Binary64 := none

namespace FigureDraft

def nameField : RecordField FigureDraft := field "name" .fault text fun x r => { r with name := x }

def metricsField : RecordField FigureDraft :=
  field "metrics" .fault (list decodeMetric) fun x r => { r with metrics := x }

def latenciesField : RecordField FigureDraft :=
  field "latencies" .default (list (oneOf Latency.labels)) fun x r => { r with latencies := x }

def histogramsField : RecordField FigureDraft :=
  field "inputs" .fault (list decodeHistogramInput) fun x r => { r with histograms := x }

def timelinesField : RecordField FigureDraft :=
  field "inputs" .fault (list decodeTimelineInput) fun x r => { r with timelines := x }

def xLabelField : RecordField FigureDraft :=
  field "xlabel" .fault text fun x r => { r with xLabel := x }

def pathField : RecordField FigureDraft := field "path" .fault text fun x r => { r with path := x }

def startDiffField : RecordField FigureDraft :=
  field "start_diff" .default word fun x r => { r with startDiff := x }

def logXField : RecordField FigureDraft :=
  field "log_x" .default bool fun x r => { r with logX := x }

def logYField : RecordField FigureDraft :=
  field "log_y" .default bool fun x r => { r with logY := x }

def xMaxField : RecordField FigureDraft :=
  field "x_max" .default (nullable real) fun x r => { r with xMax := x }

def yMaxField : RecordField FigureDraft :=
  field "y_max" .default (nullable real) fun x r => { r with yMax := x }

end FigureDraft

def figureKind (fields : List (RecordField FigureDraft)) (build : FigureDraft → Figure) :
    Json.Decoder Figure :=
  fun origin node => (record fields {} origin node).map build

open FigureDraft in
def figureKinds : List (String × Json.Decoder Figure) :=
  [("LatencyThroughput",
      figureKind [nameField, metricsField, latenciesField, logYField, yMaxField] fun d =>
        .latencyThroughput d.name d.metrics d.latencies d.logY d.yMax),
   ("ThroughputBars", figureKind [nameField, metricsField, xLabelField, logYField] fun d =>
      .throughputBars d.name d.metrics d.xLabel d.logY),
   ("LatencyCdf", figureKind [nameField, histogramsField, logXField] fun d =>
      .latencyCdf d.name d.histograms d.logX),
   ("Timeline", figureKind [nameField, timelinesField, xMaxField, yMaxField] fun d =>
      .timeline d.name d.timelines d.xMax d.yMax),
   ("CacheTimeline", figureKind [nameField, pathField, startDiffField, xMaxField] fun d =>
      .cacheTimeline d.name d.path d.startDiff d.xMax)]

/-- Figures stand in the list of a configuration, so their fields are three containers deep. -/
def decodeFigure : Json.Decoder Figure := tagged "kind" 3 figureKinds

def decode : Json.Decoder PlotConfig :=
  record
    [field "results_dir" .default text fun x r => { r with resultsDir := x },
     field "fig_dir" .default text fun x r => { r with figDir := x },
     field "defaults" .default decodeDefaults fun x r => { r with defaults := x },
     field "test_runs" .default (list word) fun x r => { r with testRuns := x },
     field "formats" .default (list (oneOf FigureFormat.labels)) fun x r => { r with formats := x },
     field "figures" .default (list decodeFigure) fun x r => { r with figures := x }]
    {}

end PlotConfig

end ClusterBench
