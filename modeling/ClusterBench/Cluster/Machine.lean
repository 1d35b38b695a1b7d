import ClusterBench.Experiment.Config

/-!
# Machines and hosts

Commands for a remote machine go through a secure shell, commands for a local one are run as they
are. `HostSelection` names a group of the hosts of an experiment, each host once.
-/

namespace ClusterBench

inductive Machine
  | remote (host username : String) (keyFile : Option String)
  /-- Commands run on this machine, which stands for a host of that name. -/
  | here (host : String)
deriving DecidableEq

namespace Machine

def ofHost (testbed : Testbed) (host username : String) (keyFile : Option String) : Machine :=
  match testbed with
  | .localhost => here host
  | _ => remote host username keyFile

def controller : Machine := here "127.0.0.1"

def host : Machine → String
  | remote host .. => host
  | here host => host

def commandLine (m : Machine) (command : String) (asRoot : Bool) : String :=
  let command := if asRoot then "sudo " ++ command else command
  match m with
  | here _ => command
  | remote host username keyFile =>
    let identity := match keyFile with
      | some file => s!"-i {file} "
      | none => ""
    s!"ssh -4 {identity}-o StrictHostKeyChecking=no {username}@{host} \"{command}\""

def copyShell (username : String) : Option String → String
  | some file => s!"-e \"ssh -l {username} -i {file} -o StrictHostKeyChecking=no\" "
  | none => ""

def copyToLine (m : Machine) (source target : String) : String :=
  match m with
  | here _ => s!"cp -r {source} {target}"
  | remote host username keyFile =>
    s!"rsync -iprl {copyShell username keyFile}{source} {username}@{host}:{target}"

def copyFromLine (m : Machine) (source target : String) : String :=
  match m with
  | here _ => s!"cp -r {source} {target}"
  | remote host username keyFile =>
    s!"rsync -zaiprl {copyShell username keyFile}{username}@{host}:{source} {target}"

def distinct (machines : List Machine) : List Machine :=
  machines.foldl
    (fun kept m => if kept.any (·.host == m.host) then kept else kept ++ [m]) []

end Machine

inductive HostSelection
  | all
  | servers
  | clients
  | backends
  | host (name : String)
  | list (names : List String)
deriving DecidableEq

structure Machines where
  testbed : Testbed
  backends : List Machine
  servers : List Machine
  clients : List Machine

namespace Machines

def ofConfig (config : ExperimentConfig) : Machines :=
  let machines := List.map fun host =>
    Machine.ofHost config.testbed host config.username config.keyFile
  ⟨config.testbed, machines config.backends, machines config.servers, machines config.clients⟩

/-- All hosts: servers first, backends last. -/
def all (ms : Machines) : List Machine := Machine.distinct (ms.servers ++ ms.clients ++ ms.backends)

/-- The hosts of a selection; names of no host are left out. -/
def select (ms : Machines) : HostSelection → List Machine
  | .all => ms.all
  | .servers => Machine.distinct ms.servers
  | .clients => Machine.distinct ms.clients
  | .backends => Machine.distinct ms.backends
  | .host name => ms.all.filter (·.host == name)
  | .list names => names.filterMap fun name => ms.all.find? (·.host == name)

end Machines

end ClusterBench
