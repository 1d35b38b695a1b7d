import ClusterBench.Cluster.Machine
import ClusterBench.Experiment.RunDirs
import ClusterBench.Experiment.Sweep

/-!
# Launch commands

The command lines that start the backends, servers and clients of a test. Client processes are
numbered by the blocks of clients that they run: the process of entry `i` is number
`i * clientsPerMachine + 1`, and the first one coordinates the others.
-/

namespace ClusterBench

structure Master where
  id : Nat
  host : String

namespace ExperimentConfig

def runDirs (config : ExperimentConfig) : RunDirs := ⟨config.runDir⟩

def serverArgs (config : ExperimentConfig) (server : Nat) : List String :=
  [config.serverJvm.flags,
   s!"-DnodeID={server}",
   s!"-DoutFolder={config.runDirs.servers}",
   "-cp",
   config.serverJvm.classpathArg config.programDir,
   config.serverJvm.mainClass]

def clientArgs (config : ExperimentConfig) (w : Workload) (id : Nat) (master : Master) :
    Except Failure (List String) := do
  let host ← config.serverFor id
  let port ← config.serverPort id
  return [
    config.clientJvm.flags,
    "-cp",
    config.clientJvm.classpathArg config.programDir,
    config.clientJvm.mainClass,
    s!"mport={config.clientBasePort}",
    "wt=0",
    s!"nc={w.clientsPerMachine}",
    s!"bs={w.batchSize}",
    s!"rs={w.recordSize}",
    s!"nf={w.filesPerClient}",
    s!"fp={config.runDir}",
    s!"typ={w.testType}",
    s!"tc={w.totalClients}",
    s!"td={w.testDuration}",
    s!"wr={w.writeRatio}",
    s!"iat={w.iat.fixed 6}",
    s!"wmup={w.warmup}",
    s!"cid={id}",
    s!"mid={master.id}",
    s!"mip={master.host}",
    s!"sip={host}",
    s!"sport={port}"]

def launchCommand (config : ExperimentConfig) (directory program : String) (p : RunProcess) :
    String :=
  s!"source ~/.bash_profile; cd {directory}; {program} > {config.runDirs.outputFile p} 2>&1 &"

def backendCommand (config : ExperimentConfig) (index : Nat) : String :=
  config.launchCommand config.runDir s!"{config.programDir}/{config.backendScript}" (.backend index)

def javaCommand (args : List String) : String := "java " ++ " ".intercalate args

def serverCommand (config : ExperimentConfig) (index : Nat) : String :=
  config.launchCommand "/tmp" (javaCommand (config.serverArgs index)) (.server index)

def clientCommand (config : ExperimentConfig) (point : TestPoint) (master : Master) (index : Nat) :
    Except Failure String := do
  let id ← inWord (index * point.clientsPerMachine + 1)
  let args ← config.clientArgs point.workload id master
  return config.launchCommand config.runDir (javaCommand args) (.client id)

/-- The machine of each client process with the command that starts it. -/
def clientCommands (config : ExperimentConfig) (clients : List Machine) (point : TestPoint) :
    Except Failure (List (Machine × String)) :=
  match clients with
  | [] => .error (.refuse .noClientMachines)
  | first :: _ =>
    clients.zipIdx.mapM fun (m, index) => do
      return (m, ← config.clientCommand point ⟨1, first.host⟩ index)

end ExperimentConfig

end ClusterBench
