import ClusterBench.Experiment.Test
import ClusterBench.Proofs.Cluster.Frames
import ClusterBench.Proofs.Files

/-!
# Phases of a test

All phases of a test but the last one only run commands. The last one adds one line to the summary
of the batch, or it fails and adds nothing.
-/

namespace ClusterBench

variable {σ τ : Type} [Shell σ]

namespace Experiment

def gather (e : Experiment) (point : TestPoint) : Run σ Unit := do
  let testDir := e.testDir point
  Run.within "cleanup" (e.cleanup testDir)
  Run.pause 3
  Run.within "prepare_folders" (e.prepareFolders testDir)
  Run.within "start_backend" e.startBackend
  Run.pause 2
  Run.within "start_servers" e.startServers
  Run.pause e.config.serverStartWait
  Run.within "start_clients" (e.startClients point)
  Run.pause 3
  Run.within "wait for clients"
    (e.machines.waitForProcess .clients "java" (e.clientLimit point) false)
  Run.within "wait for servers"
    (e.machines.waitForProcess .servers "java" e.config.serverStopWaitLimit true)
  Run.pause 3
  e.copyFiles testDir

theorem runTest_eq (e : Experiment) (point : TestPoint) : e.runTest point = (do
    e.gather point
    Run.within "get_results" (e.getResults point (e.testDir point))
    Run.pause 3 : Run σ Unit) := by
  unfold runTest gather
  simp only [bind_assoc]

end Experiment

namespace Undisturbed

variable {view : World σ → τ} (h : Undisturbed view) (e : Experiment)

include h

theorem keeps_killProcesses (ms : Machines) (hosts : HostSelection) :
    Keeps view (ms.killProcesses hosts) :=
  Keeps.forM (fun command => (h.keeps_machinesExec ms hosts command true).bind fun _ =>
    Keeps.pure _) killCommands

theorem keeps_execHere (command : String) : Keeps view (Experiment.execHere (σ := σ) command) :=
  (h.keeps_exec _ command false).bind fun _ => Keeps.pure _

theorem keeps_execOn (hosts : HostSelection) (command : String) :
    Keeps view (e.execOn hosts command) :=
  (h.keeps_machinesExec _ hosts command false).bind fun _ => Keeps.pure _

theorem keeps_cleanup (testDir : String) : Keeps view (e.cleanup testDir) := by
  apply (h.keeps_info _).bind
  intro _
  apply (h.keeps_killProcesses _ _).bind
  intro _
  apply (h.keeps_execOn e _ _).bind
  intro _
  apply (h.keeps_execOn e _ _).bind
  intro _
  exact (h.keeps_execOn e _ _).bind fun _ => h.keeps_execHere _

theorem keeps_prepareFolders (testDir : String) : Keeps view (e.prepareFolders testDir) := by
  have hrest : Keeps view (do
      Experiment.execHere s!"mkdir -p {testDir}"
      e.execOn .all ("mkdir -p " ++ " ".intercalate e.config.runDirs.all) : Run σ Unit) :=
    (h.keeps_execHere _).bind fun _ => h.keeps_execOn e _ _
  apply (h.keeps_info _).bind
  intro _
  exact ((h.keeps_execOn e _ _).bind fun _ => hrest).ite hrest

theorem keeps_startEach (machines : List Machine) (command : ℕ → String) :
    Keeps view (Experiment.startEach (σ := σ) machines command) :=
  (h.keeps_execEach _ false).bind fun _ => Keeps.pure _

theorem keeps_startBackend : Keeps view (e.startBackend (σ := σ)) :=
  (h.keeps_info _).bind fun _ => h.keeps_startEach _ _

theorem keeps_startServers : Keeps view (e.startServers (σ := σ)) :=
  (h.keeps_info _).bind fun _ => h.keeps_startEach _ _

theorem keeps_startClients (point : TestPoint) : Keeps view (e.startClients (σ := σ) point) := by
  apply (Keeps.lift _).bind
  intro commands
  refine Keeps.bind ?_ fun _ => h.keeps_info _
  apply Keeps.forM
  rintro ⟨m, command⟩
  exact (h.keeps_exec m command false).bind fun output => h.keeps_logOutput m output

theorem keeps_copyFiles (testDir : String) : Keeps view (e.copyFiles (σ := σ) testDir) := by
  apply (h.keeps_info _).bind
  intro _
  apply Keeps.ite
  · exact (h.keeps_copyFromAll _ _ _).bind fun _ => Keeps.pure _
  · apply (h.keeps_execAll _ _ false).attempt.bind
    intro result
    exact (h.keeps_warn _).ite (Keeps.pure _)

theorem keeps_gather (point : TestPoint) : Keeps view (e.gather (σ := σ) point) := by
  apply ((h.keeps_cleanup e _).within _).bind
  intro _
  apply (h.keeps_pause 3).bind
  intro _
  apply ((h.keeps_prepareFolders e _).within _).bind
  intro _
  apply ((h.keeps_startBackend e).within _).bind
  intro _
  apply (h.keeps_pause 2).bind
  intro _
  apply ((h.keeps_startServers e).within _).bind
  intro _
  apply (h.keeps_pause _).bind
  intro _
  apply ((h.keeps_startClients e point).within _).bind
  intro _
  apply (h.keeps_pause 3).bind
  intro _
  apply ((h.keeps_waitForProcess _ _ _ _ _).within _).bind
  intro _
  apply ((h.keeps_waitForProcess _ _ _ _ _).within _).bind
  intro _
  exact (h.keeps_pause 3).bind fun _ => h.keeps_copyFiles e _

end Undisturbed

end ClusterBench
