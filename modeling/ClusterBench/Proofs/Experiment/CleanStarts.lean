import ClusterBench.Proofs.Cluster.Selections
import ClusterBench.Proofs.Experiment.Reports

/-!
# Processes start on clean hosts

A test kills what the test before it has left, wipes and makes the directories of a run at every
host, and only then starts backends, servers and clients, in this order. That holds for every test
of a batch, wherever the batch stops. A batch that succeeds has killed everything once more.
-/

namespace ClusterBench

open scoped Computability

namespace Machines

def processes (ms : Machines) : List Machine := ms.servers ++ ms.clients ++ ms.backends

theorem mem_all_of_mem_processes {config : ExperimentConfig} {m : Machine}
    (h : m ∈ (ofConfig config).processes) : m ∈ (ofConfig config).all := by
  rw [(lists_all config).mem_iff, ← List.mem_map, List.map_append, List.map_append]
  exact h

end Machines

section Plans

variable {α β : Type}

/-- Every word of a language has the list in it. -/
def Demands (plan : Language β) (bs : List β) : Prop := ∀ word ∈ plan, bs.Sublist word

theorem Demands.mul {plan plan' : Language β} {bs bs' : List β} (h : Demands plan bs)
    (h' : Demands plan' bs') : Demands (plan * plan') (bs ++ bs') := by
  intro word hword
  obtain ⟨first, hfirst, second, hsecond, rfl⟩ := Language.mem_mul.mp hword
  exact (h first hfirst).append (h' second hsecond)

theorem Demands.left {plan plan' : Language β} {bs : List β} (h : Demands plan bs) :
    Demands (plan * plan') bs := by
  have hnil : Demands plan' [] := fun _ _ => List.nil_sublist _
  have hmul := h.mul hnil
  rwa [List.append_nil] at hmul

theorem Demands.right {plan plan' : Language β} {bs : List β} (h : Demands plan' bs) :
    Demands (plan * plan') bs := by
  have hnil : Demands plan [] := fun _ _ => List.nil_sublist _
  exact hnil.mul h

theorem Demands.prod {plans : α → Language β} {f : α → β} (h : ∀ a, Demands (plans a) [f a])
    (as : List α) : Demands (as.map plans).prod (as.map f) := by
  induction as with
  | nil => exact fun _ _ => List.nil_sublist _
  | cons a as ih =>
    rw [List.map_cons, List.prod_cons, List.map_cons]
    exact (h a).mul ih

theorem Machines.demands_everywhere {ms : Machines} {m : Machine} (hosts : HostSelection)
    (h : m ∈ ms.select hosts) (command : String) (asRoot : Bool) :
    Demands (ms.everywhere hosts command asRoot) [.atHost m command asRoot] := by
  rintro word hword
  obtain rfl := Set.mem_singleton_iff.mp hword
  exact List.singleton_sublist.mpr (List.mem_map_of_mem h)

end Plans

namespace Experiment

variable (e : Experiment)

def startErrands (machines : List Machine) (command : ℕ → String) : List Errand :=
  machines.zipIdx.map fun (m, index) => .atHost m (command index) false

def clientErrands (point : TestPoint) : List Errand :=
  match e.config.clientCommands e.machines.clients point with
  | .ok launches => launches.map fun launch => .atHost launch.1 launch.2 false
  | .error _ => []

def launches (point : TestPoint) : List Errand :=
  startErrands e.machines.backends e.config.backendCommand ++
    startErrands e.machines.servers e.config.serverCommand ++ e.clientErrands point

def IsLaunch (line : String) : Prop := ∃ point, ∃ errand ∈ e.launches point, errand.line = line

def kills (m : Machine) : List Errand := killCommands.map fun command => .atHost m command true

/-- What has to be done at a machine before a process is started there. -/
def cleaning (m : Machine) : List Errand :=
  kills m ++
    [.atHost m s!"rm -r {e.config.runDir}/*" false,
     .atHost m ("mkdir -p " ++ " ".intercalate e.config.runDirs.all) false]

variable {e}

theorem mem_clientCommands {config : ExperimentConfig} {clients : List Machine} {point : TestPoint}
    {launches : List (Machine × String)} (h : config.clientCommands clients point = .ok launches)
    {launch : Machine × String} (hlaunch : launch ∈ launches) :
    launch.1 ∈ clients ∧ ∃ directory program process,
      launch.2 = config.launchCommand directory program process := by
  unfold ExperimentConfig.clientCommands at h
  split at h
  · cases h
  next first rest =>
    have hstep : (.ok launch : Except Failure (Machine × String)) ∈ launches.map .ok :=
      List.mem_map_of_mem hlaunch
    rw [← mapM_eq_ok_iff.mp h] at hstep
    obtain ⟨⟨m, index⟩, hm, hok⟩ := List.mem_map.mp hstep
    obtain ⟨command, hcommand, hpure⟩ := bind_eq_ok.mp hok
    obtain ⟨id, -, hrest⟩ := bind_eq_ok.mp hcommand
    obtain ⟨args, -, hargs⟩ := bind_eq_ok.mp hrest
    cases hpure
    cases hargs
    exact ⟨List.fst_mem_of_mem_zipIdx hm, _, _, _, rfl⟩

/-- A launch starts a process at the machine of one of the processes. -/
theorem exists_of_mem_launches {point : TestPoint} {errand : Errand}
    (h : errand ∈ e.launches point) : ∃ m ∈ e.machines.processes, ∃ directory program process,
      errand = .atHost m (e.config.launchCommand directory program process) false := by
  have hmem (m : Machine) : m ∈ e.machines.processes ↔
      (m ∈ e.machines.servers ∨ m ∈ e.machines.clients) ∨ m ∈ e.machines.backends := by
    simp [Machines.processes, or_assoc]
  rw [launches, List.mem_append, List.mem_append] at h
  rcases h with (h | h) | h
  · obtain ⟨⟨m, index⟩, hm, rfl⟩ := List.mem_map.mp h
    exact ⟨m, (hmem m).mpr (Or.inr (List.fst_mem_of_mem_zipIdx hm)), _, _, _, rfl⟩
  · obtain ⟨⟨m, index⟩, hm, rfl⟩ := List.mem_map.mp h
    exact ⟨m, (hmem m).mpr (Or.inl (Or.inl (List.fst_mem_of_mem_zipIdx hm))), _, _, _, rfl⟩
  · unfold clientErrands at h
    split at h
    next launches hlaunches =>
      obtain ⟨launch, hlaunch, rfl⟩ := List.mem_map.mp h
      obtain ⟨hm, directory, program, process, hcommand⟩ := mem_clientCommands hlaunches hlaunch
      exact ⟨launch.1, (hmem _).mpr (Or.inl (Or.inr hm)), directory, program, process,
        by rw [hcommand]⟩
    · cases h

theorem finalChar?_of_isLaunch {line : String} (h : e.IsLaunch line) :
    finalChar? line = some '&' := by
  obtain ⟨point, errand, herrand, rfl⟩ := h
  obtain ⟨m, -, directory, program, process, rfl⟩ := exists_of_mem_launches herrand
  exact finalChar?_commandLine m false (finalChar?_append _ (by decide))

theorem not_isLaunch_of_ne {line : String} {c : Char} (h : finalChar? line = some c)
    (hc : c ≠ '&') : ¬e.IsLaunch line := by
  intro hlaunch
  rw [finalChar?_of_isLaunch hlaunch, Option.some.injEq] at h
  exact hc h.symm

theorem not_isLaunch_commandLine (m : Machine) {command : String} (asRoot : Bool) {c : Char}
    (h : finalChar? command = some c) (hc : c ≠ '&') :
    ¬e.IsLaunch (m.commandLine command asRoot) :=
  not_isLaunch_of_ne (finalChar?_commandLine m asRoot h) hc

theorem Speaks.avoids {σ α : Type} {p : String → Prop} {run : Run σ α} (h : Speaks run) :
    Avoids p run := by
  apply Avoids.silent
  intro w
  obtain ⟨spoken, hlog, hspoken⟩ := h w
  rw [commands_eq_append hlog, List.filterMap_eq_nil_iff.mpr, List.append_nil]
  intro line hline
  cases line with
  | command text => exact absurd rfl (hspoken _ hline text)
  | info text | warn text => rfl

section Stages

variable {σ : Type} [Shell σ] (e)

def prepare (point : TestPoint) : Run σ Unit := do
  Run.within "cleanup" (e.cleanup (e.testDir point))
  Run.pause 3
  Run.within "prepare_folders" (e.prepareFolders (e.testDir point))

def start (point : TestPoint) : Run σ Unit := do
  Run.within "start_backend" e.startBackend
  Run.pause 2
  Run.within "start_servers" e.startServers
  Run.pause e.config.serverStartWait
  Run.within "start_clients" (e.startClients point)

def finish (point : TestPoint) : Run σ Unit := do
  Run.pause 3
  Run.within "wait for clients"
    (e.machines.waitForProcess .clients "java" (e.clientLimit point) false)
  Run.within "wait for servers"
    (e.machines.waitForProcess .servers "java" e.config.serverStopWaitLimit true)
  Run.pause 3
  e.copyFiles (e.testDir point)
  Run.within "get_results" (e.getResults point (e.testDir point))
  Run.pause 3

theorem runTest_stages (point : TestPoint) : e.runTest point = (do
    e.prepare point
    e.start point
    e.finish point : Run σ Unit) := by
  unfold runTest prepare start finish
  simp only [bind_assoc]

variable {e}

theorem finalChar?_testDir (point : TestPoint) :
    ∃ c, c ≠ '&' ∧ finalChar? (e.testDir point) = some c := by
  obtain ⟨c, hdigit, hfinal⟩ := finalChar?_toString point.testRun
  refine ⟨c, ?_, finalChar?_append _ hfinal⟩
  rintro rfl
  cases hdigit

theorem avoids_killProcesses (hosts : HostSelection) :
    Avoids e.IsLaunch (e.machines.killProcesses hosts : Run σ Unit) := by
  have hkill : ∀ command ∈ killCommands, ∃ c, c ≠ '&' ∧ finalChar? command = some c := by
    simp [killCommands, finalChar?]
  apply Avoids.forM
  intro command hcommand
  obtain ⟨c, hc, hfinal⟩ := hkill command hcommand
  exact (Avoids.execAll fun m _ => not_isLaunch_commandLine m true hfinal hc).bind
    fun _ => Avoids.pure ()

theorem avoids_execOn {command : String} {c : Char} (h : finalChar? command = some c)
    (hc : c ≠ '&') (hosts : HostSelection) :
    Avoids e.IsLaunch (e.execOn hosts command : Run σ Unit) :=
  (Avoids.execAll fun m _ => not_isLaunch_commandLine m false h hc).bind fun _ => Avoids.pure ()

theorem avoids_execHere {command : String} {c : Char} (h : finalChar? command = some c)
    (hc : c ≠ '&') : Avoids e.IsLaunch (execHere command : Run σ Unit) :=
  (Avoids.exec (not_isLaunch_commandLine _ false h hc)).bind fun _ => Avoids.pure ()

theorem finalChar?_runDirs (config : ExperimentConfig) :
    finalChar? ("mkdir -p " ++ " ".intercalate config.runDirs.all) = some 't' := by
  obtain ⟨front, hfront⟩ : ∃ front, " ".intercalate config.runDirs.all = front ++ "/out" := by
    simp only [RunDirs.all, RunDirs.out, String.intercalate_cons_cons,
      String.intercalate_singleton, ← String.append_assoc]
    exact ⟨_, rfl⟩
  rw [hfront]
  exact finalChar?_append _ (finalChar?_append _ (by simp [finalChar?]))

theorem avoids_prepare (point : TestPoint) :
    Avoids e.IsLaunch (e.prepare point : Run σ Unit) := by
  have hwipe : finalChar? "/*" = some '*' ∧ finalChar? "/fs/*" = some '*' ∧
      finalChar? "rm -r /tmp/fs0/fs/* /tmp/fs1/fs/* /tmp/fs/*" = some '*' := by
    simp [finalChar?]
  have hstar : '*' ≠ '&' := by decide
  obtain ⟨c, hc, hdir⟩ := finalChar?_testDir (e := e) point
  have hfolders : Avoids e.IsLaunch (do
      execHere s!"mkdir -p {e.testDir point}"
      e.execOn .all ("mkdir -p " ++ " ".intercalate e.config.runDirs.all) : Run σ Unit) := by
    apply (avoids_execHere (finalChar?_append _ hdir) hc).bind
    intro _
    exact avoids_execOn (finalChar?_runDirs e.config) (by decide) _
  have hcleanup : Avoids e.IsLaunch (e.cleanup (e.testDir point) : Run σ Unit) := by
    apply (Avoids.info _).bind
    intro _
    apply (avoids_killProcesses .all).bind
    intro _
    apply (avoids_execOn (finalChar?_append _ hwipe.1) hstar _).bind
    intro _
    apply (avoids_execOn (finalChar?_append _ hwipe.2.1) hstar _).bind
    intro _
    apply (avoids_execOn hwipe.2.2 hstar _).bind
    exact fun _ => avoids_execHere (finalChar?_append _ hwipe.1) hstar
  apply (hcleanup.within _).bind
  intro _
  apply (Avoids.pause 3).bind
  intro _
  refine Avoids.within ((Avoids.info _).bind fun _ => ?_) _
  exact ((avoids_execOn (finalChar?_append _ hdir) hc _).bind fun _ => hfolders).ite hfolders

theorem avoids_copyFiles (point : TestPoint) :
    Avoids e.IsLaunch (e.copyFiles (e.testDir point) : Run σ Unit) := by
  obtain ⟨c, hc, hdir⟩ := finalChar?_testDir (e := e) point
  apply (Avoids.info _).bind
  intro _
  apply Avoids.ite
  · refine (Avoids.copyFromAll fun m _ => ?_).bind fun _ => Avoids.pure ()
    exact not_isLaunch_of_ne (finalChar?_copyFromLine m _ hdir) hc
  · refine (Avoids.attempt (Avoids.execAll fun m _ => ?_)).bind fun result => ?_
    · exact not_isLaunch_commandLine m false (finalChar?_append _ hdir) hc
    · exact (Avoids.warn _).ite (Avoids.pure ())

theorem avoids_finish (point : TestPoint) :
    Avoids e.IsLaunch (e.finish point : Run σ Unit) := by
  have hjava : finalChar? "java" = some 'a' ∧ finalChar? " | grep java" = some 'a' := by
    simp [finalChar?]
  have ha : 'a' ≠ '&' := by decide
  have hkill (m : Machine) : ¬e.IsLaunch (m.commandLine ("pkill -f " ++ "java") false) :=
    not_isLaunch_commandLine m false (finalChar?_append _ hjava.1) ha
  have hpoll (m : Machine) :
      ¬e.IsLaunch (m.commandLine (e.machines.testbed.pollCommand "java") false) := by
    refine not_isLaunch_commandLine m false ?_ ha
    unfold Testbed.pollCommand
    split_ifs
    · exact finalChar?_append _ hjava.1
    · exact finalChar?_append _ hjava.2
  apply (Avoids.pause 3).bind
  intro _
  apply ((Avoids.waitForProcess hkill hpoll _).within _).bind
  intro _
  apply ((Avoids.waitForProcess hkill hpoll _).within _).bind
  intro _
  apply (Avoids.pause 3).bind
  intro _
  apply (avoids_copyFiles point).bind
  intro _
  exact ((Speaks.avoids (speaks_getResults e point _)).within _).bind fun _ => Avoids.pause 3

theorem starts_startEach (machines : List Machine) (command : ℕ → String) :
    Starts (startErrands machines command) (startEach machines command : Run σ Unit) :=
  (Starts.execEach Prod.fst (fun numbered => command numbered.2) machines.zipIdx false).before
    fun _ => Avoids.pure ()

theorem starts_exec_log (m : Machine) (command : String) :
    Starts [.atHost m command false]
      (do m.logOutput (← m.exec command false) : Run σ Unit) :=
  (Starts.exec m command false).before fun output => Avoids.logOutput m output

theorem starts_startClients (point : TestPoint) :
    Starts (e.clientErrands point) (e.startClients point : Run σ Unit) := by
  unfold startClients clientErrands
  cases e.config.clientCommands e.machines.clients point with
  | error f => exact .of_avoids (Avoids.silent fun _ => rfl)
  | ok commands =>
    have hlaunches := Starts.forM (σ := σ)
      (fun launch : Machine × String => starts_exec_log launch.1 launch.2) commands
    exact hlaunches.before fun _ => Avoids.info _

theorem starts_start (point : TestPoint) :
    Starts (e.launches point) (e.start point : Run σ Unit) := by
  unfold launches
  rw [List.append_assoc]
  apply ((Starts.after (Avoids.info _) fun _ => starts_startEach _ _).within _).bind
  intro _
  apply Starts.after (Avoids.pause 2)
  intro _
  apply ((Starts.after (Avoids.info _) fun _ => starts_startEach _ _).within _).bind
  intro _
  apply Starts.after (Avoids.pause _)
  exact fun _ => (starts_startClients point).within _

theorem follows_prepare (point : TestPoint) : Follows (e.prepare point : Run σ Unit)
    (e.cleanupPlan (e.testDir point) * e.folderPlan (e.testDir point)) := by
  apply ((follows_cleanup _).within _).bind
  intro _
  apply (Follows.pause 3).after
  exact fun _ => (follows_prepareFolders _).within _

end Stages

theorem demands_kills {m : Machine} (h : m ∈ e.machines.all) :
    Demands (e.killPlan .all) (kills m) :=
  .prod (fun command => Machines.demands_everywhere .all h command true) killCommands

/-- The first part of a test cleans every host. -/
theorem demands_cleaning {m : Machine} (h : m ∈ e.machines.all) (testDir : String) :
    Demands (e.cleanupPlan testDir * e.folderPlan testDir) (e.cleaning m) := by
  have hall (command : String) :
      Demands (e.machines.everywhere .all command false) [.atHost m command false] :=
    Machines.demands_everywhere .all h command false
  have hcleanup : Demands (e.cleanupPlan testDir)
      (kills m ++ [.atHost m s!"rm -r {e.config.runDir}/*" false]) :=
    ((demands_kills h).mul (hall _)).left.left.left
  have hfolders : Demands (e.folderPlan testDir)
      [.atHost m ("mkdir -p " ++ " ".intercalate e.config.runDirs.all) false] := (hall _).right
  have hdemands := hcleanup.mul hfolders
  rwa [List.append_assoc] at hdemands

variable (e)

/-- The command lines of a test that has done some of its launches in order, after the hosts were
cleaned, and has not launched anything else. -/
def StartsClean (point : TestPoint) (started : List Errand) (lines : List String) : Prop :=
  started <+: e.launches point ∧ ∃ (before : List Errand) (after : List String),
    lines = before.map Errand.line ++ started.map Errand.line ++ after ∧
      (∀ errand ∈ before, ¬e.IsLaunch errand.line) ∧ (∀ line ∈ after, ¬e.IsLaunch line) ∧
      ∀ m command, .atHost m command false ∈ started → (e.cleaning m).Sublist before

theorem StartsClean.of_avoided {point : TestPoint} {lines : List String}
    (h : ∀ line ∈ lines, ¬e.IsLaunch line) : e.StartsClean point [] lines :=
  ⟨List.nil_prefix, [], lines, rfl, by simp, h, by simp⟩

def Covers : Prop := ∀ m ∈ e.machines.processes, m ∈ e.machines.all

variable {e} {σ : Type} [Shell σ]

theorem Covers.of_mem_launches (h : e.Covers) {point : TestPoint} {m : Machine} {command : String}
    {asRoot : Bool} (hmem : .atHost m command asRoot ∈ e.launches point) : m ∈ e.machines.all := by
  obtain ⟨m', hm', _, _, _, heq⟩ := exists_of_mem_launches hmem
  cases heq
  exact h m hm'

variable (e) in
def TestLines (point : TestPoint) (ok : Bool) (lines : List String) : Prop :=
  ∃ started, e.StartsClean point started lines ∧ (ok = true → started = e.launches point)

/-- A test starts its processes on clean hosts. -/
theorem issues_runTest (h : e.Covers) (point : TestPoint) :
    Issues (e.TestLines point) (e.runTest point : Run σ Unit) := by
  rw [runTest_stages]
  apply (((avoids_prepare point).follows (follows_prepare point)).bind fun _ =>
    Issues.bind (starts_start point) fun _ => avoids_finish point).mono
  rintro ok _ (⟨rfl, hbefore, -⟩ | ⟨_, _, rfl, ⟨hbefore, hplan⟩, hrest⟩)
  · exact ⟨[], .of_avoided e hbefore, nofun⟩
  obtain ⟨before, hwords, rfl⟩ := hplan rfl
  rw [List.forall_mem_map] at hbefore
  have hclean {started : List Errand} (hstarted : started <+: e.launches point) (m : Machine)
      (command : String) (hmem : .atHost m command false ∈ started) :
      (e.cleaning m).Sublist before :=
    demands_cleaning (h.of_mem_launches (hstarted.subset hmem)) _ before hwords
  rcases hrest with ⟨rfl, started, hstarted, rfl, -⟩ |
    ⟨_, after, rfl, ⟨started, hstarted, rfl, hall⟩, hafter⟩
  · exact ⟨started, ⟨hstarted, before, [], by simp, hbefore, by simp, hclean hstarted⟩, nofun⟩
  · refine ⟨started, ⟨hstarted, before, after, ?_, hbefore, hafter, hclean hstarted⟩, ?_⟩
    · exact (List.append_assoc _ _ _).symm
    · exact fun _ => hall rfl

theorem issues_runPoint (h : e.Covers) (total : ℕ) (point : TestPoint) (index : ℕ) :
    Issues (e.TestLines point) (e.runPoint total point index : Run σ Unit) := by
  have hsilent : Issues (fun _ lines => lines = []) (Run.advance : Run σ Unit) :=
    .silent fun _ => rfl
  have htest : Issues (e.TestLines point) (do
      Run.within s!"run test {point.testId.text}" (e.runTest point)
      Run.advance : Run σ Unit) := by
    apply (((issues_runTest h point).within _).bind fun _ => hsilent).mono
    rintro ok _ (⟨rfl, hlines⟩ | ⟨lines, _, rfl, ⟨started, hclean, hall⟩, rfl⟩)
    · exact hlines
    · rw [List.append_nil]
      exact ⟨started, hclean, fun _ => hall rfl⟩
  intro w
  obtain ⟨lines, hlines, hpost⟩ := htest (Run.info _ w).2
  rw [Run.info, commands_log rfl] at hlines
  exact ⟨lines, hlines, hpost⟩

variable (e) in
def BatchLines (points : List TestPoint) (ok : Bool) (lines : List String) : Prop :=
  ∃ tests : List (List Errand × List String),
    lines = tests.flatMap Prod.snd ∧ tests.length ≤ points.length ∧
      List.Forall₂ (fun point test => e.StartsClean point test.1 test.2)
        (points.take tests.length) tests ∧
      (ok = true → tests.map Prod.fst = points.map e.launches)

theorem issues_runPoints (h : e.Covers) (total : ℕ) (points : List (TestPoint × ℕ)) :
    Issues (e.BatchLines (points.map Prod.fst))
      (points.forM fun (point, index) => e.runPoint total point index : Run σ Unit) := by
  induction points with
  | nil =>
    have hsilent : Issues (fun _ lines => lines = []) (pure () : Run σ Unit) :=
      .silent fun _ => rfl
    apply hsilent.mono
    rintro ok _ rfl
    exact ⟨[], rfl, le_rfl, .nil, fun _ => rfl⟩
  | cons head points ih =>
    obtain ⟨point, index⟩ := head
    apply ((issues_runPoint h total point index).bind fun _ => ih).mono
    rintro ok _ (⟨rfl, started, hclean, -⟩ |
      ⟨lines, _, rfl, ⟨started, hclean, hall⟩, tests, rfl, hlength, hcleans, halls⟩)
    · exact ⟨[(started, _)], (List.append_nil _).symm, by simp, .cons hclean .nil, nofun⟩
    · refine ⟨(started, lines) :: tests, rfl, Nat.succ_le_succ hlength,
        .cons hclean hcleans, fun hok => ?_⟩
      rw [List.map_cons, List.map_cons, List.map_cons, hall rfl, halls hok]

/-- Whatever the commands of a batch write, every test of it starts its processes on clean hosts,
also the one that the batch fails in, and nothing else is started. When the batch succeeds, all
processes of all tests were started, and in the end everything is killed at their hosts. -/
theorem runBatch_startsClean (config : ExperimentConfig) (w : World σ) :
    let e := ofConfig config
    ∃ (tests : List (List Errand × List String)) (last : List String),
      (e.runBatch w).2.commands = w.commands ++ tests.flatMap Prod.snd ++ last ∧
        tests.length ≤ config.points.length ∧
        List.Forall₂ (fun point test => e.StartsClean point test.1 test.2)
          (config.points.take tests.length) tests ∧
        (∀ line ∈ last, ¬e.IsLaunch line) ∧
        ((e.runBatch w).1 = .ok () →
          tests.map Prod.fst = config.points.map e.launches ∧
            ∃ killed : List Errand, last = killed.map Errand.line ∧
              ∀ point ∈ config.points, ∀ m command, .atHost m command false ∈ e.launches point →
                (kills m).Sublist killed) := by
  intro e
  have hcovers : e.Covers := fun m hm => Machines.mem_all_of_mem_processes hm
  obtain ⟨-, hrun⟩ | ⟨-, -, hrun⟩ := e.runBatch_cases w
  swap
  · rw [hrun]
    exact ⟨[], [], by simp, Nat.zero_le _, .nil, List.forall_mem_nil _, nofun⟩
  rw [hrun]
  have hpoints : (config.points.zipIdx).map Prod.fst = config.points := by simp
  have hkill : Issues (fun ok lines => (∀ line ∈ lines, ¬e.IsLaunch line) ∧
      (ok = true → ∃ errands ∈ e.killPlan .all, lines = errands.map Errand.line)) (do
        Run.within "kill_processes" (e.machines.killProcesses .all)
        Run.info s!"finished {config.points.length} experiments" : Run σ Unit) :=
    (((avoids_killProcesses .all).within _).bind fun _ => Avoids.info _).follows
      (((follows_killProcesses .all).within _).before fun _ => Follows.info _)
  obtain ⟨_, hlines, hbatch⟩ :=
    (issues_runPoints hcovers config.points.length config.points.zipIdx).bind (fun _ => hkill) w
  rw [hpoints] at hbatch
  rcases hbatch with ⟨hfailed, tests, rfl, hlength, hclean, -⟩ |
    ⟨_, last, rfl, ⟨tests, rfl, hlength, hclean, hall⟩, hlast, hkilled⟩
  · refine ⟨tests, [], ?_, hlength, hclean, by simp, fun hok => ?_⟩
    · rw [List.append_nil]
      exact hlines
    · have hfailed : (e.runTests e.config.points w).1.isOk = false := hfailed
      rw [hok] at hfailed
      cases hfailed
  · refine ⟨tests, last, ?_, hlength, hclean, hlast, fun hok => ⟨hall rfl, ?_⟩⟩
    · rw [List.append_assoc]
      exact hlines
    · have hisOk : (e.runTests e.config.points w).1.isOk = true := by
        rw [hok]
        rfl
      obtain ⟨killed, hplan, hkilled⟩ := hkilled hisOk
      exact ⟨killed, hkilled, fun point _ m command hmem =>
        demands_kills (hcovers.of_mem_launches hmem) killed hplan⟩

end Experiment

end ClusterBench
