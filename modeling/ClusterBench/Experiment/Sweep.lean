import ClusterBench.Experiment.Config
import ClusterBench.TestId

/-!
# Sweeps

A sweep is expanded into the list of its tests: all combinations of its parameters, the runs of a
test next to each other. A test is filed under its id and adds a line to the summary of its batch.
-/

namespace ClusterBench

structure TestPoint where
  testType : String
  testPrefix : String
  batchSize : Nat
  writeRatio : Nat
  filesPerClient : Nat
  recordSize : Nat
  iat : Binary64
  testRun : Nat
  clientsPerMachine : Nat
  totalClients : Nat
  testDuration : Nat
  warmup : Nat

structure Workload where
  testType : String
  clientsPerMachine : Nat
  totalClients : Nat
  batchSize : Nat
  recordSize : Nat
  filesPerClient : Nat
  writeRatio : Nat
  iat : Binary64
  testDuration : Nat
  warmup : Nat

namespace TestPoint

variable (p : TestPoint)

def workload : Workload where
  testType := p.testType
  clientsPerMachine := p.clientsPerMachine
  totalClients := p.totalClients
  batchSize := p.batchSize
  recordSize := p.recordSize
  filesPerClient := p.filesPerClient
  writeRatio := p.writeRatio
  iat := p.iat
  testDuration := p.testDuration
  warmup := p.warmup

def testId : TestId where
  system := .kawkab
  prefixText := s!"{p.testType}-{p.testPrefix}"
  numClients := p.totalClients
  clientsPerMachine := p.clientsPerMachine
  batchSize := p.batchSize
  recordSize := p.recordSize
  filesPerClient := p.filesPerClient
  writeRatio := p.writeRatio
  iat := p.iat

def testDir (expDir : String) : String := s!"{expDir}/{p.testId.text}/run_{p.testRun}"

def summaryColumns : String :=
  s!"{p.writeRatio}, {p.totalClients}, {p.clientsPerMachine}, {p.filesPerClient}, " ++
    s!"{p.recordSize}, {p.batchSize}, {p.testPrefix}, {p.iat.fixed 2}, {p.testRun}"

/-- The line of the test in the summary of a batch: its parameters and the last line of its results
that is not blank. -/
def summaryLine (results : String) : String :=
  let last := (linesOf results.toList).reverse.find? fun line => line.any (!isBlank ·)
  p.summaryColumns ++ ", " ++ String.ofList (trimWhere isBlank (last.getD []))

end TestPoint

def SweepConfig.points (sweep : SweepConfig) (totalClients : Nat) : List TestPoint :=
  sweep.testTypes.flatMap fun testType =>
  sweep.loads.flatMap fun load =>
  sweep.filesPerClient.flatMap fun filesPerClient =>
  sweep.testPrefixes.flatMap fun testPrefix =>
  sweep.recordSizes.flatMap fun recordSize =>
  load.iats.flatMap fun iat =>
  sweep.testRuns.map fun testRun =>
    { testType, testPrefix, batchSize := load.batchSize, writeRatio := load.writeRatio,
      filesPerClient, recordSize, iat, testRun, clientsPerMachine := sweep.clientsPerMachine,
      totalClients, testDuration := sweep.testDuration, warmup := sweep.warmup }

namespace ExperimentConfig

def tests (config : ExperimentConfig) : Except Failure (List TestPoint) := do
  return config.sweep.points (← config.totalClients)

/-- The tests of an experiment; there are none if its clients cannot be counted. -/
def points (config : ExperimentConfig) : List TestPoint := config.tests.toOption.getD []

end ExperimentConfig

end ClusterBench
