import ClusterBench.Plot.Config
import ClusterBench.Results.CacheLog
import ClusterBench.Results.Database
import ClusterBench.Results.HistogramFile

/-!
# Loading results

Each test that a figure plots is loaded once from each of its result files, in the order of the
figures. A run that has been read is kept next to its result file as a snapshot, which later loads
take instead. All tests are loaded even if one fails; the first failure in order is reported.
-/

namespace ClusterBench

namespace HistogramFile

def load (path : String) : Filing HistogramFile := do
  let text ← Filing.within s!"read {path}" (Filing.ask (·.readText path))
  Filing.within s!"parse {path}" (Filing.lift (ofText text))

/-- The latencies of the reads and the writes of a run together. -/
def ofRun (runDir : String) : Filing Histogram := do
  let reads ← Filing.lift (← load (joinPath runDir "read-results-hists.json")).histogram
  let writes ← Filing.lift (← load (joinPath runDir "write-results-hists.json")).histogram
  return reads.merge writes

end HistogramFile

def CacheLog.load (path : String) (startDiff : Nat) : Filing CacheLog := do
  let entry ← Filing.within s!"open cache log {path}" (Filing.ask (·.open? path))
  Filing.within s!"parse cache log {path}" do
    Filing.lift (CacheLog.ofBytes (← Filing.bytes entry) startDiff)

structure LoadJob where
  testId : TestId
  resFile : String
  fromHistogram : Bool

namespace LoadJob

/-- Jobs are the same when ids show the same text. -/
def same (a b : LoadJob) : Bool :=
  a.resFile == b.resFile && a.fromHistogram == b.fromHistogram && a.testId.text == b.testId.text

def ofMetric (config : PlotConfig) (metric : Metric) : List LoadJob :=
  metric.points.flatMap fun point => point.iats.map fun iat =>
    ⟨config.testId metric point iat, point.resFile, point.fromHistogram⟩

/-- Drops the jobs that an earlier job stands for. -/
def distinct (jobs : List LoadJob) : List LoadJob :=
  jobs.foldl (fun kept job => if kept.any (·.same job) then kept else kept ++ [job]) []

def ofConfig (config : PlotConfig) : List LoadJob :=
  distinct (config.figures.flatMap fun figure => figure.metrics.flatMap (ofMetric config))

def snapshotSuffix (job : LoadJob) : String :=
  if job.fromHistogram then "_hist_run_data_snapshot.bincode.gz"
  else "_run_data_snapshot.bincode.gz"

def resultPath (config : PlotConfig) (job : LoadJob) (run : Nat) : String :=
  s!"{config.runDir job.testId run}/{job.resFile}"

def snapshotPath (config : PlotConfig) (job : LoadJob) (run : Nat) : String :=
  job.resultPath config run ++ job.snapshotSuffix

end LoadJob

namespace RunData

def ofEntry : FileEntry → Except Failure (RunData Binary64)
  | .packed bytes =>
    match ofSnapshot? bytes with
    | some r => .ok r
    | none => .error (.of .snapshot)
  | _ => .error (.of .snapshot)

def loadSnapshot (path : String) : Filing (RunData Binary64) :=
  Filing.within s!"deserialize run data snapshot {path}" do
    let entry ← Filing.within "deserialize open file" (Filing.ask (·.open? path))
    Filing.within "deserialize bincode" (Filing.lift (ofEntry entry))

/-- Reads a run from its result file, with the latencies of its histograms if the job says so. -/
def readRun (config : PlotConfig) (job : LoadJob) (run : Nat) : Filing (RunData Binary64) := do
  let path := job.resultPath config run
  let text ← Filing.within s!"read {path}" (Filing.ask (·.readText path))
  let r ← Filing.within s!"parse {path}" (Filing.lift (ofText job.testId.system text))
  if job.fromHistogram then
    if job.testId.system = .kawkab then
      let histogram ← HistogramFile.ofRun (config.runDir job.testId run)
      let _ ← Filing.lift histogram.total
      match r.withLatencies histogram with
      | some r => return r
      | none => Filing.lift (.error .broken)
    else Filing.lift (.error (.refuse .histogramsOfOtherSystem))
  else return r

/-- Takes the snapshot of a run, or reads the run and leaves a snapshot of it. -/
def load (config : PlotConfig) (job : LoadJob) (run : Nat) : Filing (RunData Binary64) := do
  let path := job.snapshotPath config run
  if (← get).contains path then loadSnapshot path
  else
    let r ← readRun config job run
    Filing.within s!"serialize run data snapshot {path}" (Filing.within "serialize create file"
      (Filing.change (·.write path (.packed r.snapshot))))
    return r

end RunData

namespace Entry

/-- All runs of a job, in order; the first one that fails ends it. -/
def load (config : PlotConfig) (job : LoadJob) : Filing Entry := do
  let runs ← config.testRuns.mapM fun run =>
    Filing.within s!"load run {run} of {job.testId.text}" (RunData.load config job run)
  return ofRuns job.testId job.resFile runs

end Entry

namespace Database

def loadAll (config : PlotConfig) : List LoadJob → StateM Files (List (Except Failure Entry))
  | [] => pure []
  | job :: jobs => do
    let entry ← (Entry.load config job).run
    return entry :: (← loadAll config jobs)

def load (config : PlotConfig) : Filing Database := fun files =>
  let (entries, files) := loadAll config (LoadJob.ofConfig config) files
  (inContext "load entry" (entries.mapM id), files)

end Database

end ClusterBench
