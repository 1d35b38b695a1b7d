import ClusterBench.Cluster.Machine
import ClusterBench.Cluster.World

/-!
# Commands on machines

A command goes to several machines at once; results and log lines come in the order of the
machines. What the commands write is logged under the name of the host. Polling repeats a command
on each host in turn as long as it prints something, within a limit that all hosts share.
-/

namespace ClusterBench

variable {σ : Type} [Shell σ]

namespace Machine

def exec (m : Machine) (command : String) (asRoot : Bool) : Run σ Output :=
  Run.within s!"exec at {m.host}" (Run.execute (m.commandLine command asRoot))

def execSequence (m : Machine) (commands : List String) (asRoot : Bool) : Run σ (List Output) :=
  commands.mapM fun command => m.exec command asRoot

def copyTo (m : Machine) (source target : String) : Run σ Output :=
  Run.within s!"copy to {m.host}" (Run.execute (m.copyToLine source target))

def copyFrom (m : Machine) (source target : String) : Run σ Output :=
  Run.within s!"copy from {m.host}" (Run.execute (m.copyFromLine source target))

/-- Logs what a command has written, blank parts left out. -/
def logOutput (m : Machine) (output : Output) : Run σ Unit := do
  if !output.stdout.isEmpty then Run.info s!"[{m.host}] {output.stdout}"
  if !output.stderr.isEmpty then Run.warn s!"[{m.host}] {output.stderr}"

/-- Logs results in order up to the first failure, which is the result then. -/
def collect : List (Machine × Except Failure (List Output)) →
    Run σ (List (Machine × List Output))
  | [] => return []
  | (m, result) :: rest => do
    let outputs ← Run.lift result
    outputs.forM m.logOutput
    return (m, outputs) :: (← collect rest)

def execEach (jobs : List (Machine × List String)) (asRoot : Bool) :
    Run σ (List (Machine × List Output)) := do
  let results ← jobs.mapM fun (m, commands) => do
    return (m, ← Run.attempt (m.execSequence commands asRoot))
  collect results

def execAll (machines : List Machine) (command : String) (asRoot : Bool) :
    Run σ (List (Machine × Output)) := do
  let results ← execEach (machines.map fun m => (m, [command])) asRoot
  return results.map fun (m, outputs) => (m, outputs.getLast?.getD ⟨"", ""⟩)

def copyToAll (machines : List Machine) (source target : String) :
    Run σ (List (Machine × Output)) := do
  let results ← machines.mapM fun m => do
    return (m, (← Run.attempt (m.copyTo source target)).map fun output => [output])
  return (← collect results).map fun (m, outputs) => (m, outputs.getLast?.getD ⟨"", ""⟩)

/-- Copies from all machines at once; a copy that fails is logged and stops no other. -/
def copyFromAll (machines : List Machine) (source target : String) :
    Run σ (List (Except Failure Output)) := do
  let results ← machines.mapM fun m => Run.attempt (m.copyFrom source target)
  for result in results do
    if result matches .error _ then Run.warn "copy failed"
  return results

/-- Polls a machine, at most `budget` times, until the command writes nothing or an error; tells
how many polls found the process. -/
def poll (m : Machine) (command : String) : Nat → Run σ Nat
  | 0 => return 0
  | budget + 1 => do
    let output ← m.exec command false
    if !output.stderr.isEmpty then
      Run.warn s!"[{m.host}] {output.stderr}"
      return 0
    else if output.stdout.isEmpty then return 0
    else
      Run.sleep 2
      return 1 + (← m.poll command budget)

/-- Polls machines in turn, with a budget for all of them; tells how much of it is spent. -/
def pollAll (command : String) : List Machine → Nat → Run σ Nat
  | [], _ => return 0
  | m :: ms, budget => do
    Run.info s!"waiting at {m.host}: {command}"
    let spent ← m.poll command budget
    return spent + (← pollAll command ms (budget - spent))

end Machine

namespace Machines

variable (ms : Machines)

def exec (hosts : HostSelection) (command : String) (asRoot : Bool) :
    Run σ (List (Machine × Output)) :=
  Machine.execAll (ms.select hosts) command asRoot

/-- Waits until no process of that name is left on the hosts, after killing it if asked to. -/
def waitForProcess (hosts : HostSelection) (process : String) (limit : Nat) (kill : Bool) :
    Run σ Unit := do
  let machines := ms.select hosts
  if kill then
    let _ ← Machine.execAll machines s!"pkill -f {process}" false
  let checks ← Machine.pollAll (ms.testbed.pollCommand process) machines limit
  if limit ≤ checks then
    Run.warn s!"stopped waiting for {process} after {limit} checks"

end Machines

end ClusterBench
