import ClusterBench.Cluster.Remote

/-!
# Target machines

Commands for a fixed set of rented machines, to deploy and inspect them between batches.
-/

namespace ClusterBench

structure TargetsConfig where
  targets : List String := []
  username : String := "ubuntu"
  keyFile : Option String := none
  /-- What `sync` copies, and where to. -/
  source : String := "kawkab/src"
  target : String := "/home/ubuntu/kawkab/"
  /-- The command that runs when none is given. -/
  command : String := "grep Exc /tmp/kawkab/servers/*"
  makeCommand : String := "cd /home/ubuntu/kawkab; mvn compile"

inductive TargetTask
  | sync
  | make
  | command (line : Option String)
  | sleep
  | upload (source target : String)
  | download (source target : String)
deriving DecidableEq

namespace TargetsConfig

open Json.Decoder in
def decode : Json.Decoder TargetsConfig :=
  record
    [field "targets" .default (list text) fun x r => { r with targets := x },
     field "ssh_username" .default text fun x r => { r with username := x },
     field "key_file" .default (nullable text) fun x r => { r with keyFile := x },
     field "src" .default text fun x r => { r with source := x },
     field "dst" .default text fun x r => { r with target := x },
     field "command" .default text fun x r => { r with command := x },
     field "make_command" .default text fun x r => { r with makeCommand := x }]
    {}

variable (config : TargetsConfig)

def machines : List Machine :=
  config.targets.map fun host => .ofHost .ec2 host config.username config.keyFile

variable {σ : Type} [Shell σ]

def runCommand (command : String) : Run σ (List Output) := do
  return (← Machine.execAll config.machines command false).map Prod.snd

def upload (source target : String) : Run σ (List Output) := do
  Run.info s!"copying {source} to {target}"
  return (← Machine.copyToAll config.machines source target).map Prod.snd

def download (source target : String) : Run σ (List Output) := do
  Run.info s!"downloading {source} to {target}"
  let results ← Machine.copyFromAll config.machines source target
  Run.lift (results.mapM id)

def perform : TargetTask → Run σ (List Output)
  | .sync => upload config config.source config.target
  | .make => do
    Run.info "running make command"
    runCommand config config.makeCommand
  | .command line => runCommand config (line.getD config.command)
  | .sleep => do
    Run.info "sleeping"
    runCommand config "sleep 100d"
  | .upload source target => upload config source target
  | .download source target => download config source target

end TargetsConfig

end ClusterBench
