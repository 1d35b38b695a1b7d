import ClusterBench.CommandLine.Interface
import ClusterBench.ConfigFile
import ClusterBench.Experiment.Test
import ClusterBench.Plot.Loading

/-!
# Programs

Three programs: one runs, stops or lists the tests of an experiment, one does a task on target
machines, and one writes loaded results as JSON. A program ends with a status and with what it has
printed: nothing unless it succeeds.
-/

namespace ClusterBench

structure Outcome where
  status : Nat
  printed : String
  /-- What went wrong, outermost first. -/
  complaints : List String := []

namespace Outcome

def success (printed : String) : Outcome := ⟨0, printed, []⟩

def misuse : Outcome := ⟨2, "", ["wrong arguments"]⟩

/-- A failure ends a program with status one; what its caller had to rule out ends it at once. -/
def ofFailure (f : Failure) : Outcome := ⟨if f.cause = .broken then 101 else 1, "", f.messages⟩

def ofResult : Except Failure String → Outcome
  | .ok printed => success printed
  | .error f => ofFailure f

end Outcome

namespace Program

def configOption (help fallback : String) : OptionSpec :=
  { short := some 'c', long := "config", kind := .path, help, fallback := some fallback }

def batch : Program where
  interface :=
    { about := "Runs kawkab benchmark batches across a cluster"
      options := [configOption "Experiment configuration (json)" "exp_config.json"] }
  commands :=
    [("run", { about := "Runs every test of the sweep (default)" }),
     ("stop",
      { about := "Kills kawkab, client and backend processes on all hosts"
        options := [{ long := "host", kind := .text, help := "Only stop these hosts",
                      repeated := true, valueName := some "HOSTS" }] }),
     ("points", { about := "Lists the tests of the sweep without touching any host" })]

def targets : Program where
  interface :=
    { about := "Runs a command on every target machine"
      options := [configOption "Targets configuration (json)" "cmd_config.json"] }
  commands :=
    [("sync", { about := "Uploads the configured source directory" }),
     ("make", { about := "Runs the configured build command" }),
     ("cmd", { about := "Runs a command, or the configured one"
               arguments := [⟨"COMMAND", false⟩] }),
     ("sleep", { about := "Opens a long-lived session on every target" }),
     ("rsync", { about := "Uploads `src` to `dst`"
                 arguments := [⟨"SRC", true⟩, ⟨"DST", true⟩] }),
     ("dlres", { about := "Downloads `src` from every target into `dst`"
                 arguments := [⟨"SRC", true⟩, ⟨"DST", true⟩] })]
  needsCommand := true

def filterOption (long : String) (kind : ValueKind) (help : String) : OptionSpec :=
  { long, kind, help, requires := some "prefix" }

def dump : Program where
  interface :=
    { about := "Dumps the parsed results of a plot configuration as json"
      options :=
        [configOption "Plot configuration (json)" "plot_config.json",
         { short := some 'o', long := "output", kind := .path, required := true,
           help := "Directory where `results.json` is written" },
         { long := "prefix", kind := .text,
           help := "Only dump the tests with this prefix, e.g. `rw-kw48`" },
         filterOption "btrdb" .nothing "The prefix names BTrDB tests",
         filterOption "res-file" .text "",
         filterOption "num-clients" .word "",
         filterOption "batch-size" .word "",
         filterOption "record-size" .word "",
         filterOption "write-ratio" .word "",
         filterOption "files-per-client" .word ""] }

end Program

def Search.ofGiven? (g : Given) : Option Search :=
  (g.value? "prefix").map fun prefixText =>
    { system := if g.has "btrdb" then .btrdb else .kawkab
      prefixText
      resFile := g.value? "res-file"
      numClients := g.word? "num-clients"
      batchSize := g.word? "batch-size"
      recordSize := g.word? "record-size"
      writeRatio := g.word? "write-ratio"
      filesPerClient := g.word? "files-per-client" }

def TargetTask.ofGiven (command : String) (g : Given) : Option TargetTask :=
  match command, g.arguments with
  | "sync", _ => some .sync
  | "make", _ => some .make
  | "cmd", arguments => some (.command arguments.head?)
  | "sleep", _ => some .sleep
  | "rsync", [source, target] => some (.upload source target)
  | "dlres", [source, target] => some (.download source target)
  | _, _ => none

namespace CommandLine

variable {σ : Type} [Shell σ]

def listing (points : List TestPoint) : String :=
  String.join (points.map fun p => s!"{p.testId.text} run_{p.testRun}\n") ++
    s!"{points.length} tests\n"

def runBatch (g : Given) (command : Option (String × Given)) : Run σ String := do
  let config ← Run.filing (ExperimentConfig.load ((g.value? "config").getD "exp_config.json"))
  let e := Experiment.ofConfig config
  match command with
  | some ("points", _) => return listing (← Run.lift config.tests)
  | some ("stop", given) =>
    let hosts := given.values "host"
    Run.within "kill processes"
      (e.machines.killProcesses (if hosts.isEmpty then .all else .list hosts))
    return ""
  | _ =>
    let points ← Run.lift config.tests
    Run.progress fun _ => .start points.length
    Run.within "run batch" e.runBatch
    Run.progress Progress.finish
    return ""

def runTargets (g : Given) (command : Option (String × Given)) : Run σ String := do
  let config ← Run.filing (TargetsConfig.load ((g.value? "config").getD "cmd_config.json"))
  if let some task := command.bind fun (name, given) => TargetTask.ofGiven name given then
    let outputs ← config.perform task
    Run.info s!"done on {outputs.length} targets"
  return ""

def runDump (g : Given) (_ : Option (String × Given)) : Run σ String := do
  let config ← Run.filing (PlotConfig.load ((g.value? "config").getD "plot_config.json"))
  let db ← Run.within "load results" (Run.filing (Database.load config))
  let db := match Search.ofGiven? g with
    | some search => db.select search
    | none => db
  let output := (g.value? "output").getD ""
  Run.filing (db.dump output)
  Run.info s!"{db.length} entries written to {output}"
  return ""

def run (program : Program)
    (action : Given → Option (String × Given) → Run σ String) (name : String)
    (arguments : List String) (world : World σ) : Outcome × World σ :=
  match program.read arguments with
  | .ok (g, command) =>
    let (result, world) := action g command world
    (.ofResult result, world)
  | .error (.help topic) => (.success (program.help name topic), world)
  | .error .misuse => (.misuse, world)

def batch : String → List String → World σ → Outcome × World σ := run .batch runBatch

def targets : String → List String → World σ → Outcome × World σ := run .targets runTargets

def dump : String → List String → World σ → Outcome × World σ := run .dump runDump

end CommandLine

end ClusterBench
