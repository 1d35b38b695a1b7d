import ClusterBench.Proofs.Cluster.Errands
import ClusterBench.Proofs.Experiment.Batch

/-!
# What a test reports about its commands

A test that succeeds has reported all errors that its commands have written at the hosts, up to the
point where it collects their files. Where the hosts copy them, errors are reported as before,
unless a copy cannot be started: then nothing is logged about the hosts behind it. Where the files
are fetched from the hosts, nothing is logged about a copy that was started.
-/

namespace ClusterBench

open scoped Computability

variable {σ : Type}

def Speaks {α : Type} (run : Run σ α) : Prop :=
  ∀ w, ∃ spoken : List LogLine, (run w).2.log = w.log ++ spoken ∧
    ∀ line ∈ spoken, ∀ command, line ≠ .command command

namespace Speaks

variable {α β : Type} {run : Run σ α}

theorem silent (h : ∀ w, (run w).2.log = w.log) : Speaks run :=
  fun w => ⟨[], by rw [h, List.append_nil], by simp⟩

theorem info (text : String) : Speaks (Run.info text : Run σ Unit) :=
  fun _ => ⟨[.info text], rfl, by simp⟩

theorem warn (text : String) : Speaks (Run.warn text : Run σ Unit) :=
  fun _ => ⟨[.warn text], rfl, by simp⟩

theorem bind {next : α → Run σ β} (h : Speaks run) (h' : ∀ a, Speaks (next a)) :
    Speaks (run >>= next) := by
  intro w
  obtain ⟨spoken, hlog, hspoken⟩ := h w
  rw [bind_apply]
  rcases hrun : run w with ⟨f | a, w'⟩
  · rw [hrun] at hlog
    exact ⟨spoken, hlog, hspoken⟩
  · rw [hrun] at hlog
    obtain ⟨more, hmore, hmoreSpoken⟩ := h' a w'
    refine ⟨spoken ++ more, ?_, List.forall_mem_append.mpr ⟨hspoken, hmoreSpoken⟩⟩
    rw [hmore, hlog, List.append_assoc]

theorem within (h : Speaks run) (context : String) : Speaks (Run.within context run) := h

theorem pause (seconds : ℕ) : Speaks (Run.pause seconds : Run σ Unit) := by
  unfold Run.pause
  split_ifs
  · exact (info _).bind fun _ => silent fun _ => rfl
  · exact silent fun _ => rfl

end Speaks

namespace Experiment

variable (e : Experiment)

theorem speaks_getResults (point : TestPoint) (testDir : String) :
    Speaks (e.getResults point testDir : Run σ Unit) := by
  have hread (path : String) : Speaks (readIfText path : Run σ _) := .silent fun _ => rfl
  have happend (line : String) : Speaks (e.appendLine line : Run σ Unit) := by
    have hfiling {α : Type} (action : Filing α) : Speaks (Run.filing action : Run σ α) :=
      .silent fun _ => rfl
    exact ((hfiling _).within _).bind fun _ => (Speaks.info _).bind fun _ => hfiling _
  rw [getResults_eq]
  refine Speaks.bind ?_ fun results => (happend _).bind fun _ => ?_
  · apply (hread _).bind
    intro found
    cases found with
    | none => exact (Speaks.warn _).bind fun _ => .silent fun _ => rfl
    | some text => exact .silent fun _ => rfl
  · apply (hread _).bind
    intro found
    cases found with
    | none => exact Speaks.info _
    | some json => exact (Speaks.info _).bind fun _ => Speaks.info _

variable [Shell σ]

def killPlan (hosts : HostSelection) : Language Errand :=
  (killCommands.map fun command => e.machines.everywhere hosts command true).prod

def cleanupPlan (testDir : String) : Language Errand :=
  let dir := e.config.programDir
  e.killPlan .all *
  e.machines.everywhere .all s!"rm -r {e.config.runDir}/*" false *
  e.machines.everywhere .servers s!"rm -r {dir}/fs0/fs/* {dir}/fs1/fs/* {dir}/fs/*" false *
  e.machines.everywhere .servers "rm -r /tmp/fs0/fs/* /tmp/fs1/fs/* /tmp/fs/*" false *
  {[.here (wipeCommand testDir)]}

def folderPlan (testDir : String) : Language Errand :=
  (if e.machines.testbed.isEc2 then e.machines.everywhere .all s!"mkdir -p {testDir}" false
    else 1) *
  {[.here s!"mkdir -p {testDir}"]} *
  e.machines.everywhere .all ("mkdir -p " ++ " ".intercalate e.config.runDirs.all) false

def startPlan (machines : List Machine) (command : ℕ → String) : Language Errand :=
  {machines.zipIdx.map fun (m, index) => .atHost m (command index) false}

def clientPlan (point : TestPoint) : Language Errand :=
  match e.config.clientCommands e.machines.clients point with
  | .ok launches => {launches.map fun launch => .atHost launch.1 launch.2 false}
  | .error _ => 0

def plan (point : TestPoint) : Language Errand :=
  let testDir := e.testDir point
  e.cleanupPlan testDir *
  e.folderPlan testDir *
  startPlan e.machines.backends e.config.backendCommand *
  startPlan e.machines.servers e.config.serverCommand *
  e.clientPlan point *
  e.machines.polls .clients "java" *
  e.machines.everywhere .servers "pkill -f java" false *
  e.machines.polls .servers "java"

variable {e}

theorem follows_killProcesses (hosts : HostSelection) :
    Follows (e.machines.killProcesses hosts : Run σ Unit) (e.killPlan hosts) := by
  apply Follows.forM
  intro command
  exact (e.machines.follows_exec hosts command true).before fun _ => Follows.pure ()

theorem follows_execHere (command : String) :
    Follows (execHere command : Run σ Unit) {[.here command]} := by
  have hexec : Leaves (Machine.controller.exec command false : Run σ _) fun output events =>
      events = [.asked (.here command) (some output)] :=
    (leaves_attempt (.here command) _).of_attempt
  apply (hexec.bind fun _ => Leaves.pure ()).mono
  rintro _ _ ⟨output, _, _, rfl, rfl, -, rfl⟩
  refine ⟨Set.mem_singleton _, Reported.asked (.of_logged (by simp)) ?_⟩
  rintro host ⟨⟩

theorem follows_execOn (hosts : HostSelection) (command : String) :
    Follows (e.execOn hosts command : Run σ Unit) (e.machines.everywhere hosts command false) :=
  (e.machines.follows_exec hosts command false).before fun _ => Follows.pure ()

theorem follows_cleanup (testDir : String) :
    Follows (e.cleanup testDir : Run σ Unit) (e.cleanupPlan testDir) := by
  unfold cleanupPlan
  simp only [mul_assoc]
  apply (Follows.info _).after
  intro _
  apply (follows_killProcesses .all).bind
  intro _
  apply (follows_execOn .all _).bind
  intro _
  apply (follows_execOn .servers _).bind
  intro _
  exact (follows_execOn .servers _).bind fun _ => follows_execHere _

theorem follows_prepareFolders (testDir : String) :
    Follows (e.prepareFolders testDir : Run σ Unit) (e.folderPlan testDir) := by
  have hrest : Follows (do
      execHere s!"mkdir -p {testDir}"
      e.execOn .all ("mkdir -p " ++ " ".intercalate e.config.runDirs.all) : Run σ Unit) _ :=
    (follows_execHere _).bind fun _ => follows_execOn .all _
  unfold folderPlan prepareFolders
  rw [mul_assoc]
  apply (Follows.info _).after
  intro _
  split_ifs
  · exact (follows_execOn .all _).bind fun _ => hrest
  · rw [one_mul]
    exact hrest

theorem follows_startEach (machines : List Machine) (command : ℕ → String) :
    Follows (startEach machines command : Run σ Unit) (startPlan machines command) :=
  (follows_execEach Prod.fst (fun numbered => command numbered.2) machines.zipIdx false).before
    fun _ => Follows.pure ()

theorem follows_startClients (point : TestPoint) :
    Follows (e.startClients point : Run σ Unit) (e.clientPlan point) := by
  unfold startClients clientPlan
  cases e.config.clientCommands e.machines.clients point with
  | error f =>
    intro w a w' hrun
    cases hrun
  | ok launches =>
    have hlaunches := Follows.forM (σ := σ)
      (fun launch : Machine × String => follows_exec_log launch.1 launch.2) launches
    rw [prod_singletons fun launch : Machine × String => .atHost launch.1 launch.2 false]
      at hlaunches
    exact hlaunches.before fun _ => Follows.info _

variable (e)

def perform (point : TestPoint) : Run σ Unit := do
  Run.within "cleanup" (e.cleanup (e.testDir point))
  Run.pause 3
  Run.within "prepare_folders" (e.prepareFolders (e.testDir point))
  Run.within "start_backend" e.startBackend
  Run.pause 2
  Run.within "start_servers" e.startServers
  Run.pause e.config.serverStartWait
  Run.within "start_clients" (e.startClients point)
  Run.pause 3
  Run.within "wait for clients"
    (e.machines.waitForProcess .clients "java" (e.clientLimit point) false)
  Run.within "wait for servers"
    (e.machines.waitForProcess .servers "java" e.config.serverStopWaitLimit true)
  Run.pause 3

theorem gather_eq (point : TestPoint) : e.gather point = (do
    e.perform point
    e.copyFiles (e.testDir point) : Run σ Unit) := by
  unfold gather perform
  simp only [bind_assoc]

variable {e}

theorem follows_perform (point : TestPoint) :
    Follows (e.perform point : Run σ Unit) (e.plan point) := by
  have hclients := e.machines.follows_waitForProcess (σ := σ) .clients "java"
    (e.clientLimit point) false
  rw [if_neg Bool.false_ne_true, one_mul] at hclients
  have hservers := e.machines.follows_waitForProcess (σ := σ) .servers "java"
    e.config.serverStopWaitLimit true
  rw [if_pos rfl] at hservers
  unfold plan perform
  simp only [mul_assoc]
  apply ((follows_cleanup _).within _).bind
  intro _
  apply (Follows.pause 3).after
  intro _
  apply ((follows_prepareFolders _).within _).bind
  intro _
  apply (((Follows.info _).after fun _ => follows_startEach _ _).within _).bind
  intro _
  apply (Follows.pause 2).after
  intro _
  apply (((Follows.info _).after fun _ => follows_startEach _ _).within _).bind
  intro _
  apply (Follows.pause _).after
  intro _
  apply ((follows_startClients point).within _).bind
  intro _
  apply (Follows.pause 3).after
  intro _
  apply (hclients.within _).bind
  intro _
  exact (hservers.within _).before fun _ => Follows.pause 3

variable (e)

/-- The collection of files, with the answers to the copies. What is written while files are fetched
from a host is not logged; what hosts write that copy is, up to the first copy that could not be
started. -/
def collecting (testDir : String) (answers : List (Machine × Option Output)) : List Event :=
  .told "copying files" ::
  if e.machines.testbed.isEc2 then
    asks (fun m => .copyFrom m s!"{e.config.runDir}/" testDir) answers ++ copyReports answers
  else
    asks (fun m => .atHost m s!"cp -r {e.config.runDir}/* {testDir}" false) answers ++
      reports id answers ++
      if answers.all (·.2.isSome) then [] else [.warned "copying files failed"]

variable {e}

theorem copyFiles_eq (testDir : String) : e.copyFiles testDir = (do
    Run.info "copying files"
    if e.machines.testbed.isEc2 then
      let _ ← Machine.copyFromAll (e.machines.select .all) s!"{e.config.runDir}/" testDir
    else
      let result ← Run.attempt (Machine.execAll (e.machines.select .all)
        s!"cp -r {e.config.runDir}/* {testDir}" false)
      warnFailure "copying files failed" result : Run σ Unit) := by
  unfold copyFiles
  apply bind_congr
  intro _
  split_ifs
  · rfl
  · apply bind_congr
    intro result
    cases result <;> rfl

theorem leaves_copyFiles (testDir : String) :
    Leaves (e.copyFiles testDir : Run σ Unit) fun _ events =>
      ∃ answers : List (Machine × Option Output),
        answers.map Prod.fst = e.machines.select .all ∧ events = e.collecting testDir answers := by
  have hwarn (result : Except Failure (List (Machine × Output))) :
      Leaves (warnFailure "copying files failed" result : Run σ Unit) fun _ events =>
        events = if result.isOk then [] else [.warned "copying files failed"] := by
    cases result with
    | error f => exact leaves_warn _
    | ok outputs => exact (Leaves.pure ()).mono fun _ _ h => h.2
  rw [copyFiles_eq]
  unfold collecting
  split_ifs
  · apply ((leaves_info _).bind fun _ =>
      (leaves_copyFromAll _ _ _).bind fun _ => Leaves.pure ()).mono
    rintro _ _ ⟨_, _, _, rfl, rfl, _, _, _, rfl, ⟨answers, hanswers, rfl⟩, -, rfl⟩
    exact ⟨answers, hanswers, by rw [List.append_nil]; rfl⟩
  · apply ((leaves_info _).bind fun _ => (leaves_execAll _ _ false).bind hwarn).mono
    rintro _ _ ⟨_, _, _, rfl, rfl, result, _, _, rfl, ⟨answers, hanswers, rfl, hanswered⟩, rfl⟩
    have hok := hanswered.isOk_iff
    rw [← List.all_eq_true] at hok
    refine ⟨answers, hanswers, ?_⟩
    rw [if_congr hok rfl rfl]
    rfl

/-- Copies that are run at the hosts are reported if all of them could be started. -/
theorem reported_collecting {testDir : String} {answers : List (Machine × Option Output)}
    (htestbed : e.machines.testbed.isEc2 = false) (h : ∀ answer ∈ answers, answer.2.isSome) :
    Reported (e.collecting testDir answers) := by
  have hall : answers.all (·.2.isSome) = true := List.all_eq_true.mpr h
  unfold collecting
  rw [htestbed, if_neg Bool.false_ne_true, hall, if_pos rfl, List.append_nil]
  exact Reported.told (reported_reports (fun _ => rfl) h) "copying files"

/-- When a test succeeds, everything that its commands have written as errors at the hosts is in a
warning that names the host, up to the collection of the files. That is reported in the same way
where the hosts run the copies themselves and all copies could be started. -/
theorem runTest_reports {point : TestPoint} {w w' : World σ}
    (h : e.runTest point w = (.ok (), w')) : ∃ gathered answers spoken,
      w.Path (gathered ++ e.collecting (e.testDir point) answers) (e.gather point w).2 ∧
        errandsOf gathered ∈ e.plan point ∧ Reported gathered ∧
        answers.map Prod.fst = e.machines.select .all ∧
        (e.machines.testbed.isEc2 = false → (∀ answer ∈ answers, answer.2.isSome) →
          Reported (gathered ++ e.collecting (e.testDir point) answers)) ∧
        w'.log = w.log ++
          (gathered ++ e.collecting (e.testDir point) answers).map Event.logLine ++ spoken ∧
        ∀ line ∈ spoken, ∀ command, line ≠ .command command := by
  rw [runTest_eq] at h
  obtain ⟨⟨⟩, w₁, hgather, hresults⟩ := bind_apply_eq_ok.mp h
  have hrun := hgather
  rw [gather_eq] at hrun
  obtain ⟨_, hpath, ⟨⟩, gathered, _, rfl, ⟨hplan, hreported⟩, answers, hanswers, rfl⟩ :=
    Leaves.bind (follows_perform point) (fun _ => leaves_copyFiles (e.testDir point)) w _ w₁ hrun
  obtain ⟨spoken, hlog, hspoken⟩ :=
    ((e.speaks_getResults point (e.testDir point)).within "get_results").bind
      (fun _ => Speaks.pause 3) w₁
  rw [hresults, hpath.log_eq] at hlog
  refine ⟨gathered, answers, spoken, ?_, hplan, hreported, hanswers, ?_, hlog, hspoken⟩
  · rwa [hgather]
  · exact fun htestbed hstarted => hreported.append (reported_collecting htestbed hstarted)

/-- A shell that answers some commands in silence and complains about all others. -/
structure Patience where
  left : ℕ
  complaints : ℕ

instance : Shell Patience where
  execute patience files _ :=
    match patience with
    | ⟨left + 1, complaints⟩ => some (⟨[], []⟩, ⟨left, complaints⟩, files)
    | ⟨0, complaints⟩ => some (⟨[], Utf8.encode "lost"⟩, ⟨0, complaints + 1⟩, files)

def remoteHosts : Experiment := .ofConfig
  { testbed := .ec2, keyFile := some "key", servers := ["a"], clients := ["b"], expDir := "exp" }

def brokenCopies : World Patience := .start ⟨29, 0⟩ ⟨[(["exp"], .directory)]⟩ 1

/-- The copies from both hosts complain, and the only warning is about missing results. -/
theorem runTest_reports_brokenCopies : ∃ point ∈ remoteHosts.config.points,
    (∃ w' gathered answers, remoteHosts.runTest point brokenCopies = (.ok (), w') ∧
      brokenCopies.Path (gathered ++ remoteHosts.collecting (remoteHosts.testDir point) answers)
        (remoteHosts.gather point brokenCopies).2 ∧ Reported gathered) ∧
      (remoteHosts.runTest point brokenCopies).2.shell.complaints = 2 ∧
      (remoteHosts.runTest point brokenCopies).2.log.countP (· matches .warn _) = 1 := by
  have hrun : ∃ point ∈ remoteHosts.config.points,
      (remoteHosts.runTest point brokenCopies).1.isOk ∧
      (remoteHosts.runTest point brokenCopies).2.shell.complaints = 2 ∧
      (remoteHosts.runTest point brokenCopies).2.log.countP (· matches .warn _) = 1 := by
    decide +kernel
  obtain ⟨point, hpoint, hok, hcounts⟩ := hrun
  refine ⟨point, hpoint, ?_, hcounts⟩
  rcases hrun : remoteHosts.runTest point brokenCopies with ⟨f | a, w'⟩
  · rw [hrun] at hok
    cases hok
  · obtain ⟨gathered, answers, -, hpath, -, hreported, -⟩ := runTest_reports hrun
    exact ⟨w', gathered, answers, rfl, hpath, hreported⟩

end Experiment

end ClusterBench
