import ClusterBench.Cluster.Remote
import ClusterBench.Experiment.Launch

/-!
# Running a test

A test cleans up after the one before it, makes its directories, starts backends, servers and
clients, waits for them to end, collects their files and adds a line to the summary of the batch.
-/

namespace ClusterBench

variable {σ : Type} [Shell σ]

/-- Ends every process that a test may have left behind; run with all rights. -/
def killCommands : List String :=
  ["pkill -9 java", "pkill -f ClientMain", "pkill cli.sh", "pkill -9 -f Main",
   "pkill -f zookeeper", "pkill -f server", "pkill minio"]

namespace Machines

variable (ms : Machines)

def killProcesses (hosts : HostSelection) : Run σ Unit :=
  killCommands.forM fun command => do
    let _ ← ms.exec hosts command true

end Machines

structure Experiment where
  config : ExperimentConfig
  machines : Machines

namespace Experiment

def ofConfig (config : ExperimentConfig) : Experiment := ⟨config, .ofConfig config⟩

variable (e : Experiment)

def batchFile : String := s!"{e.config.expDir}/all-results.csv"

def testDir (point : TestPoint) : String := point.testDir e.config.expDir

def execHere (command : String) : Run σ Unit := do
  let _ ← Machine.controller.exec command false

def execOn (hosts : HostSelection) (command : String) : Run σ Unit := do
  let _ ← e.machines.exec hosts command false

def wipeCommand (testDir : String) : String := s!"rm -r {testDir}/*"

def cleanup (testDir : String) : Run σ Unit := do
  Run.info "cleanup"
  e.machines.killProcesses .all
  e.execOn .all s!"rm -r {e.config.runDir}/*"
  let dir := e.config.programDir
  e.execOn .servers s!"rm -r {dir}/fs0/fs/* {dir}/fs1/fs/* {dir}/fs/*"
  e.execOn .servers "rm -r /tmp/fs0/fs/* /tmp/fs1/fs/* /tmp/fs/*"
  execHere (wipeCommand testDir)

def prepareFolders (testDir : String) : Run σ Unit := do
  Run.info "preparing folders"
  if e.machines.testbed.isEc2 then e.execOn .all s!"mkdir -p {testDir}"
  execHere s!"mkdir -p {testDir}"
  e.execOn .all ("mkdir -p " ++ " ".intercalate e.config.runDirs.all)

def startEach (machines : List Machine) (command : Nat → String) : Run σ Unit := do
  let _ ← Machine.execEach (machines.zipIdx.map fun (m, index) => (m, [command index])) false

def startBackend : Run σ Unit := do
  Run.info "starting backend storage"
  startEach e.machines.backends e.config.backendCommand

def startServers : Run σ Unit := do
  Run.info s!"starting {e.machines.servers.length} servers"
  startEach e.machines.servers e.config.serverCommand

/-- Starts the clients one after the other, so that the first one is there before the others. -/
def startClients (point : TestPoint) : Run σ Unit := do
  let commands ← Run.lift (e.config.clientCommands e.machines.clients point)
  commands.forM fun (m, command) => do
    m.logOutput (← m.exec command false)
  Run.info s!"started {commands.length} client processes"

/-- Collects the files of the run; a failure is logged and the batch goes on. -/
def copyFiles (testDir : String) : Run σ Unit := do
  Run.info "copying files"
  let hosts := e.machines.select .all
  if e.machines.testbed.isEc2 then
    let _ ← Machine.copyFromAll hosts s!"{e.config.runDir}/" testDir
  else
    let result ← Run.attempt (Machine.execAll hosts s!"cp -r {e.config.runDir}/* {testDir}" false)
    if result matches .error _ then Run.warn "copying files failed"

def readIfText (path : String) : Run σ (Option String) := fun world =>
  (.ok (world.files.readText path).toOption, world)

def appendLine (line : String) : Run σ Unit := do
  Run.within s!"open {e.batchFile}" (Run.filing (Filing.change (·.append e.batchFile [])))
  Run.info line
  Run.filing (Filing.change (·.append e.batchFile (Utf8.encode (line ++ "\n"))))

/-- Adds the results of the test to the summary of the batch; without results, only its
parameters. -/
def getResults (point : TestPoint) (testDir : String) : Run σ Unit := do
  let csv := s!"{testDir}/all-results.csv"
  let results ← do
    match ← readIfText csv with
    | some text => pure text
    | none =>
      Run.warn s!"no results at {csv}"
      pure ""
  e.appendLine (point.summaryLine results)
  if let some json ← readIfText s!"{testDir}/all-results.json" then Run.info json
  Run.info results

/-- How long clients may take: they end on their own when the test is over. -/
def clientLimit (point : TestPoint) : Nat :=
  point.warmup + point.testDuration + e.config.clientWaitExtra

def runTest (point : TestPoint) : Run σ Unit := do
  let testDir := e.testDir point
  Run.within "cleanup" (e.cleanup testDir)
  Run.pause 3
  Run.within "prepare_folders" (e.prepareFolders testDir)
  Run.within "start_backend" e.startBackend
  Run.pause 2
  Run.within "start_servers" e.startServers
  Run.pause e.config.serverStartWait
  Run.within "start_clients" (e.startClients point)
  Run.pause 3
  Run.within "wait for clients"
    (e.machines.waitForProcess .clients "java" (e.clientLimit point) false)
  Run.within "wait for servers"
    (e.machines.waitForProcess .servers "java" e.config.serverStopWaitLimit true)
  Run.pause 3
  e.copyFiles testDir
  Run.within "get_results" (e.getResults point testDir)
  Run.pause 3

def runPoint (total : Nat) (point : TestPoint) (index : Nat) : Run σ Unit := do
  let id := point.testId.text
  Run.info s!"experiment {index + 1} of {total} | test id: {id} | run {point.testRun}"
  Run.within s!"run test {id}" (e.runTest point)
  Run.advance

/-- Runs all tests in order and kills what is left in the end. -/
def runBatch : Run σ Unit := do
  let points ← Run.lift e.config.tests
  points.zipIdx.forM fun (point, index) => e.runPoint points.length point index
  Run.within "kill_processes" (e.machines.killProcesses .all)
  Run.info s!"finished {points.length} experiments"

end Experiment

end ClusterBench
