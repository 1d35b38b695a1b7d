import ClusterBench.Cluster.Remote
import ClusterBench.Proofs.Computations

/-!
# What commands leave alone

A view of the world that does not see the log and the time, and that no command changes, is kept by
everything that is done on machines.
-/

namespace ClusterBench

variable {σ τ α : Type}

namespace Keeps

variable {view : World σ → τ}

theorem lift (result : Except Failure α) : Keeps view (Run.lift result) := fun _ => rfl

theorem within {run : Run σ α} (h : Keeps view run) (context : String) :
    Keeps view (Run.within context run) := h

theorem attempt {run : Run σ α} (h : Keeps view run) : Keeps view (Run.attempt run) := h

theorem ite {c : Prop} [Decidable c] {run run' : Run σ α} (h : Keeps view run)
    (h' : Keeps view run') : Keeps view (if c then run else run') := by
  split_ifs
  · exact h
  · exact h'

end Keeps

variable [Shell σ]

/-- A view of the world that commands and log lines do not change. -/
structure Unaffected (view : World σ → τ) : Prop where
  log : ∀ w log, view { w with log } = view w
  command : ∀ w line reply shell files,
    Shell.execute w.shell w.files line = some (reply, shell, files) →
      view { w with shell, files } = view w

structure Undisturbed (view : World σ → τ) : Prop extends Unaffected view where
  slept : ∀ w slept, view { w with slept } = view w

theorem unaffected_slept : Unaffected (World.slept : World σ → ℕ) where
  log _ _ := rfl
  command _ _ _ _ _ _ := rfl

namespace Unaffected

variable {view : World σ → τ}

variable (h : Unaffected view)

include h

theorem keeps_log (line : LogLine) : Keeps view (Run.log line) := fun w => h.log w _

theorem keeps_info (text : String) : Keeps view (Run.info text) := h.keeps_log _

theorem keeps_warn (text : String) : Keeps view (Run.warn text) := h.keeps_log _

theorem keeps_execute (line : String) : Keeps view (Run.execute line) := by
  apply (h.keeps_log _).bind
  intro _
  apply Keeps.within
  intro w
  dsimp only
  split
  next reply shell files heq => exact h.command w line reply shell files heq
  next => rfl

theorem keeps_exec (m : Machine) (command : String) (asRoot : Bool) :
    Keeps view (m.exec command asRoot) := (h.keeps_execute _).within _

theorem keeps_execSequence (m : Machine) (commands : List String) (asRoot : Bool) :
    Keeps view (m.execSequence commands asRoot) :=
  Keeps.mapM (fun command => h.keeps_exec m command asRoot) commands

theorem keeps_copyFrom (m : Machine) (source target : String) :
    Keeps view (m.copyFrom source target) := (h.keeps_execute _).within _

theorem keeps_logOutput (m : Machine) (output : Output) : Keeps view (m.logOutput output) := by
  have hwarn : Keeps view (if !output.stderr.isEmpty then
      (Run.warn s!"[{m.host}] {output.stderr}" : Run σ Unit) else pure ()) :=
    (h.keeps_warn _).ite (Keeps.pure _)
  unfold Machine.logOutput
  exact ((h.keeps_info _).bind fun _ => hwarn).ite hwarn

theorem keeps_collect (results : List (Machine × Except Failure (List Output))) :
    Keeps view (Machine.collect (σ := σ) results) := by
  induction results with
  | nil => exact Keeps.pure _
  | cons result results ih =>
    obtain ⟨m, outputs⟩ := result
    apply (Keeps.lift outputs).bind
    intro outputs
    apply (Keeps.forM (fun output => h.keeps_logOutput m output) outputs).bind
    intro _
    exact ih.bind fun _ => Keeps.pure _

theorem keeps_execEach (jobs : List (Machine × List String)) (asRoot : Bool) :
    Keeps view (Machine.execEach jobs asRoot) := by
  unfold Machine.execEach
  apply Keeps.bind
  · apply Keeps.mapM
    rintro ⟨m, commands⟩
    exact (h.keeps_execSequence m commands asRoot).attempt.bind fun _ => Keeps.pure _
  · exact h.keeps_collect

theorem keeps_execAll (machines : List Machine) (command : String) (asRoot : Bool) :
    Keeps view (Machine.execAll machines command asRoot) :=
  (h.keeps_execEach _ asRoot).bind fun _ => Keeps.pure _

theorem keeps_copyFromAll (machines : List Machine) (source target : String) :
    Keeps view (Machine.copyFromAll machines source target) := by
  unfold Machine.copyFromAll
  apply Keeps.bind
  · exact Keeps.mapM (fun m => (h.keeps_copyFrom m source target).attempt) machines
  · intro results
    apply Keeps.bind
    · apply Keeps.forIn
      intro result _
      split
      · exact (h.keeps_warn _).bind fun _ => Keeps.pure _
      · exact Keeps.pure _
    · exact fun _ => Keeps.pure _

theorem keeps_machinesExec (ms : Machines) (hosts : HostSelection) (command : String)
    (asRoot : Bool) : Keeps view (ms.exec hosts command asRoot) :=
  h.keeps_execAll _ command asRoot

end Unaffected

namespace Undisturbed

variable {view : World σ → τ}

variable (h : Undisturbed view)

include h

theorem keeps_sleep (seconds : ℕ) : Keeps view (Run.sleep seconds) := fun w => h.slept w _

theorem keeps_pause (seconds : ℕ) : Keeps view (Run.pause seconds) := by
  unfold Run.pause
  exact ((h.keeps_info _).bind fun _ => h.keeps_sleep _).ite (Keeps.pure _)

theorem keeps_poll (m : Machine) (command : String) (budget : ℕ) :
    Keeps view (m.poll command budget) := by
  induction budget with
  | zero => exact Keeps.pure _
  | succ budget ih =>
    apply (h.keeps_exec m command false).bind
    intro output
    apply ((h.keeps_warn _).bind fun _ => Keeps.pure _).ite
    apply (Keeps.pure _).ite
    exact (h.keeps_sleep 2).bind fun _ => ih.bind fun _ => Keeps.pure _

theorem keeps_pollAll (command : String) (machines : List Machine) (budget : ℕ) :
    Keeps view (Machine.pollAll command machines budget) := by
  induction machines generalizing budget with
  | nil => exact Keeps.pure _
  | cons m machines ih =>
    apply (h.keeps_info _).bind
    intro _
    apply (h.keeps_poll m command budget).bind
    exact fun spent => (ih (budget - spent)).bind fun _ => Keeps.pure _

theorem keeps_waitForProcess (ms : Machines) (hosts : HostSelection) (process : String)
    (limit : ℕ) (kill : Bool) : Keeps view (ms.waitForProcess hosts process limit kill) := by
  have hpolls : Keeps view (do
      let checks ← Machine.pollAll (ms.testbed.pollCommand process) (ms.select hosts) limit
      if limit ≤ checks then
        (Run.warn s!"stopped waiting for {process} after {limit} checks" : Run σ Unit)) :=
    (h.keeps_pollAll _ _ limit).bind fun _ => (h.keeps_warn _).ite (Keeps.pure _)
  unfold Machines.waitForProcess
  exact ((h.keeps_execAll _ _ false).bind fun _ => hpolls).ite hpolls

end Undisturbed

end ClusterBench
