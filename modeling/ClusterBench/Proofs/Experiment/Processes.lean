import ClusterBench.Proofs.Experiment.CleanStarts
import ClusterBench.Proofs.Experiment.ServerPorts

/-!
# Processes of a test

The processes of a test may all run at one host. They do not get in each other's way there: each one
writes its output to a file of its own, and each client process runs a block of clients whose
numbers no other one has.
-/

namespace ClusterBench

theorem RunProcess.name_injective : Function.Injective RunProcess.name := by
  have hkind {kind : String} {m n : ℕ}
      (h : kind ++ padZeros 2 (digitsText m) = kind ++ padZeros 2 (digitsText n)) : m = n :=
    padZeros_digitsText_injective 2 ((String.append_right_inj kind).mp h)
  intro p q h
  -- Names of different kinds differ in their first character.
  have hhead := congrArg (fun text => text.toList.head?) h
  cases p <;> cases q <;> simp only [name] at h hhead
  all_goals first
    | exact congrArg _ (hkind h)
    | simp at hhead

/-- Different processes have different files, whatever their numbers are. -/
theorem RunDirs.outputFile_injective (dirs : RunDirs) : Function.Injective dirs.outputFile := by
  intro p q h
  have hkind {folder : String}
      (h : dirs.run ++ folder ++ "/" ++ p.name ++ ".out" =
        dirs.run ++ folder ++ "/" ++ q.name ++ ".out") : p = q := by
    have hnames := (String.append_left_inj ".out").mp h
    exact RunProcess.name_injective ((String.append_right_inj _).mp hnames)
  -- Folders of different kinds differ in their second character.
  have hsecond := congrArg (fun text => text.toList[dirs.run.toList.length + 1]?) h
  cases p <;> cases q
  all_goals first
    | exact hkind h
    | simp [outputFile, outputDir, out, servers, clients] at hsecond

namespace ExperimentConfig

def clientId (config : ExperimentConfig) (index : ℕ) : ℕ :=
  index * config.sweep.clientsPerMachine + 1

def block (config : ExperimentConfig) (index : ℕ) : Finset ℕ :=
  Finset.Ico (config.clientId index) (config.clientId index + config.sweep.clientsPerMachine)

variable {config : ExperimentConfig} {point : TestPoint}

theorem mem_block_iff (hblock : 0 < config.sweep.clientsPerMachine) {index client : ℕ} :
    client ∈ config.block index ↔
      0 < client ∧ (client - 1) / config.sweep.clientsPerMachine = index := by
  rw [Nat.div_eq_iff hblock, block, clientId, Finset.mem_Ico]
  omega

theorem disjoint_block (hblock : 0 < config.sweep.clientsPerMachine) {i j : ℕ} (hne : i ≠ j) :
    Disjoint (config.block i) (config.block j) := by
  rw [Finset.disjoint_left]
  intro client hi hj
  exact hne (((mem_block_iff hblock).mp hi).2.symm.trans ((mem_block_iff hblock).mp hj).2)

theorem biUnion_block (hblock : 0 < config.sweep.clientsPerMachine) :
    (Finset.range config.clients.length).biUnion config.block =
      Finset.Icc 1 config.clientCount := by
  ext client
  simp only [Finset.mem_biUnion, Finset.mem_range, mem_block_iff hblock, Finset.mem_Icc,
    clientCount]
  constructor
  · rintro ⟨index, hindex, hpos, rfl⟩
    have hlt := (Nat.div_lt_iff_lt_mul hblock).mp hindex
    omega
  · rintro ⟨hpos, hle⟩
    exact ⟨_, (Nat.div_lt_iff_lt_mul hblock).mpr (by omega), hpos, rfl⟩

def processes (config : ExperimentConfig) : List RunProcess :=
  (List.range config.backends.length).map .backend ++
    (List.range config.servers.length).map .server ++
      (List.range config.clients.length).map fun index => .client (config.clientId index)

theorem clientId_injective (hblock : 0 < config.sweep.clientsPerMachine) :
    Function.Injective config.clientId := by
  intro i j h
  exact Nat.eq_of_mul_eq_mul_right hblock (Nat.succ.inj h)

theorem nodup_processes (hblock : 0 < config.sweep.clientsPerMachine) :
    config.processes.Nodup := by
  have hnumbers (n : ℕ) {process : ℕ → RunProcess} (h : Function.Injective process) :
      ((List.range n).map process).Nodup := List.nodup_range.map h
  refine ((hnumbers _ ?_).append (hnumbers _ ?_) ?_).append (hnumbers _ ?_) ?_
  · exact fun _ _ => RunProcess.backend.inj
  · exact fun _ _ => RunProcess.server.inj
  · simp [List.disjoint_left]
  · exact fun _ _ h => clientId_injective hblock (RunProcess.client.inj h)
  · simp [List.disjoint_left, or_imp, forall_and]

/-- An errand starts a process, with its output in the file of the process. -/
def StartsProcess (config : ExperimentConfig) (process : RunProcess) (errand : Errand) : Prop :=
  ∃ m directory program,
    errand = .atHost m (config.launchCommand directory program process) false

theorem range_length_eq {α : Type} (as : List α) :
    List.range as.length = as.zipIdx.map Prod.snd := by
  rw [List.zipIdx_map_snd, List.range_eq_range']

theorem forall₂_startErrands {command : ℕ → String} {process : ℕ → RunProcess}
    (h : ∀ index, ∃ directory program,
      command index = config.launchCommand directory program (process index))
    (machines : List Machine) :
    List.Forall₂ config.StartsProcess ((List.range machines.length).map process)
      (Experiment.startErrands machines command) := by
  rw [range_length_eq, List.map_map, Experiment.startErrands, List.forall₂_map_left_iff,
    List.forall₂_map_right_iff, List.forall₂_same]
  rintro ⟨m, index⟩ -
  obtain ⟨directory, program, hcommand⟩ := h index
  refine ⟨m, directory, program, ?_⟩
  dsimp only
  rw [hcommand]
  rfl

/-- A client process is told its number and that of the one that coordinates all of them. -/
theorem exists_clientCommand_eq {master : Master} {index : ℕ} {command : String}
    (hpoint : point ∈ config.points) (h : config.clientCommand point master index = .ok command) :
    ∃ (front host : String) (port : ℕ), command = front ++ " ".intercalate
      [s!"cid={config.clientId index}", s!"mid={master.id}", s!"mip={master.host}", s!"sip={host}",
        s!"sport={port}"] ++
      s!" > {config.runDirs.outputFile (.client (config.clientId index))} 2>&1 &" := by
  have hid : index * point.clientsPerMachine + 1 = config.clientId index := by
    rw [clientsPerMachine_of_mem_points hpoint, clientId]
  rw [clientCommand_eq, launchFrame, hid] at h
  obtain ⟨⟨front, back⟩, hframe, hcommand⟩ := bind_eq_ok.mp h
  obtain ⟨id, hfits, hframe⟩ := bind_eq_ok.mp hframe
  obtain ⟨-, rfl⟩ := inWord_eq_ok.mp hfits
  obtain ⟨host, -, hframe⟩ := bind_eq_ok.mp hframe
  obtain ⟨port, -, hframe⟩ := bind_eq_ok.mp hframe
  obtain ⟨-, hback⟩ := Prod.mk.inj (Except.ok.inj hframe)
  refine ⟨front ++ " ".intercalate (config.testOptions point) ++ " " ++
    s!"wmup={point.warmup}" ++ " ", host, port, ?_⟩
  rw [← Except.ok.inj hcommand, ← hback, backArgs, String.intercalate_cons_cons]
  simp only [String.append_assoc]

theorem map_fst_launches {launches : List (Machine × String)}
    (h : config.clientCommands (Machines.ofConfig config).clients point = .ok launches) :
    launches.map Prod.fst = config.clients.map config.machine := by
  obtain ⟨_, -, hall⟩ := forall₂_clientCommands h
  have hmachines : (Machines.ofConfig config).clients.zipIdx.map Prod.fst =
      launches.map Prod.fst := by
    rw [← List.forall₂_eq_eq_eq, List.forall₂_map_left_iff, List.forall₂_map_right_iff]
    exact hall.imp fun _ _ hlaunch => hlaunch.1.symm
  rw [← hmachines, List.zipIdx_map_fst]
  rfl

theorem exists_launch_eq (hpoint : point ∈ config.points) {launches : List (Machine × String)}
    (h : config.clientCommands (Machines.ofConfig config).clients point = .ok launches) :
    ∃ first ∈ config.clients.head?, ∀ index (hindex : index < launches.length),
      ∃ (front host : String) (port : ℕ), launches[index].2 = front ++ " ".intercalate
        [s!"cid={config.clientId index}", "mid=1", s!"mip={first}", s!"sip={host}",
          s!"sport={port}"] ++
        s!" > {config.runDirs.outputFile (.client (config.clientId index))} 2>&1 &" := by
  obtain ⟨master, hmaster, hall⟩ := forall₂_clientCommands h
  change master ∈ (config.clients.map config.machine).head? at hmaster
  rw [List.head?_map, Option.mem_map] at hmaster
  obtain ⟨first, hfirst, rfl⟩ := hmaster
  refine ⟨first, hfirst, fun index hindex => ?_⟩
  have hcommand := (hall.get (by rwa [hall.length_eq]) hindex).2
  simp only [List.get_eq_getElem, List.getElem_zipIdx, zero_add] at hcommand
  obtain ⟨front, host, port, heq⟩ := exists_clientCommand_eq hpoint hcommand
  have hmid : s!"mid={1}" = "mid=1" := by decide
  rw [host_machine, hmid] at heq
  exact ⟨front, host, port, heq⟩

theorem forall₂_clientErrands (hpoint : point ∈ config.points)
    {launches : List (Machine × String)}
    (h : config.clientCommands (Machines.ofConfig config).clients point = .ok launches) :
    List.Forall₂ config.StartsProcess
      ((List.range config.clients.length).map fun index => .client (config.clientId index))
      (launches.map fun launch => .atHost launch.1 launch.2 false) := by
  have hlength : config.clients.length = (Machines.ofConfig config).clients.length :=
    (List.length_map _).symm
  obtain ⟨first, -, hall⟩ := forall₂_clientCommands h
  rw [hlength, range_length_eq, List.map_map, List.forall₂_map_left_iff, List.forall₂_map_right_iff]
  apply hall.imp
  rintro ⟨m, index⟩ launch ⟨-, hcommand⟩
  obtain ⟨id, hid, hrest⟩ := bind_eq_ok.mp hcommand
  obtain ⟨-, rfl⟩ := inWord_eq_ok.mp hid
  obtain ⟨args, -, hargs⟩ := bind_eq_ok.mp hrest
  refine ⟨launch.1, config.runDir, javaCommand args, ?_⟩
  rw [← Except.ok.inj hargs, clientsPerMachine_of_mem_points hpoint]
  rfl

/-- What a test launches are its processes, or those in front of the clients. -/
theorem exists_started (hpoint : point ∈ config.points) :
    ∃ started, started <+: config.processes ∧
      List.Forall₂ config.StartsProcess started ((Experiment.ofConfig config).launches point) ∧
      ((∃ launches,
        config.clientCommands (Machines.ofConfig config).clients point = .ok launches) →
        started = config.processes) := by
  have hmachines (hosts : List String) : (hosts.map config.machine).length = hosts.length :=
    List.length_map _
  have hbackends : List.Forall₂ config.StartsProcess
      ((List.range config.backends.length).map .backend)
      (Experiment.startErrands (Machines.ofConfig config).backends config.backendCommand) := by
    rw [← hmachines]
    exact forall₂_startErrands (fun index => ⟨_, _, rfl⟩) _
  have hservers : List.Forall₂ config.StartsProcess
      ((List.range config.servers.length).map .server)
      (Experiment.startErrands (Machines.ofConfig config).servers config.serverCommand) := by
    rw [← hmachines]
    exact forall₂_startErrands (fun index => ⟨_, _, rfl⟩) _
  have hfront := List.rel_append hbackends hservers
  cases hclients : config.clientCommands (Machines.ofConfig config).clients point with
  | error f =>
    have hnone : (Experiment.ofConfig config).clientErrands point = [] := by
      simp only [Experiment.clientErrands, Experiment.ofConfig, hclients]
    refine ⟨_, List.prefix_append _ _, ?_, nofun⟩
    rw [Experiment.launches, hnone, List.append_nil]
    exact hfront
  | ok launches =>
    have hall : (Experiment.ofConfig config).clientErrands point =
        launches.map fun launch => .atHost launch.1 launch.2 false := by
      simp only [Experiment.clientErrands, Experiment.ofConfig, hclients]
    refine ⟨_, List.prefix_rfl, ?_, fun _ => rfl⟩
    rw [Experiment.launches, hall]
    exact List.rel_append hfront (forall₂_clientErrands hpoint hclients)

/-- Without clients a test is refused. Otherwise there is a command for each client process, at its
machine and with the first one as the coordinator, as long as there are servers and all of them have
ports. The clients can be counted if there is a test at all; the blocks of them that the processes
run share no client, and together they have all of them. All processes that a test starts write to
different files, as do any processes. -/
theorem processes_apart (hblock : 0 < config.sweep.clientsPerMachine)
    (hpoint : point ∈ config.points) :
    let e := Experiment.ofConfig config
    let launched := config.clientCommands e.machines.clients point
    (config.clients = [] → launched = .error (.refuse .noClientMachines)) ∧
    (config.clients ≠ [] → config.servers ≠ [] →
      (∀ server < config.servers.length, config.serverBasePort + server < 2 ^ portBits) →
      ∃ launches, launched = .ok launches) ∧
    (∀ launches, launched = .ok launches →
      launches.map Prod.fst = config.clients.map config.machine ∧
      ∃ first ∈ config.clients.head?, ∀ index (hindex : index < launches.length),
        ∃ (front host : String) (port : ℕ), launches[index].2 = front ++ " ".intercalate
          [s!"cid={config.clientId index}", "mid=1", s!"mip={first}", s!"sip={host}",
            s!"sport={port}"] ++
          s!" > {config.runDirs.outputFile (.client (config.clientId index))} 2>&1 &") ∧
    ((∀ i j, i ≠ j → Disjoint (config.block i) (config.block j)) ∧
      ∃ total < 2 ^ wordBits, config.totalClients = .ok total ∧
        (Finset.range config.clients.length).biUnion config.block = Finset.Icc 1 total) ∧
    ((config.processes.map config.runDirs.outputFile).Nodup ∧
      (∃ started, started <+: config.processes ∧
        List.Forall₂ config.StartsProcess started (e.launches point) ∧
        ((∃ launches, launched = .ok launches) → started = config.processes)) ∧
      ∀ (σ : Type) [Shell σ], Issues (e.TestLines point) (e.runTest point : Run σ Unit)) ∧
    ∀ dirs : RunDirs, Function.Injective dirs.outputFile := by
  intro e launched
  refine ⟨fun hnone => ?_, fun hclients hservers hports => ?_,
    fun launches h => ⟨map_fst_launches h, exists_launch_eq hpoint h⟩,
    ⟨fun i j => disjoint_block hblock, config.clientCount, (mem_points.mp hpoint).1,
      inWord_eq_ok.mpr ⟨(mem_points.mp hpoint).1, rfl⟩, biUnion_block hblock⟩,
    ⟨(nodup_processes hblock).map config.runDirs.outputFile_injective, exists_started hpoint, ?_⟩,
    RunDirs.outputFile_injective⟩
  · change config.clientCommands (config.clients.map config.machine) point = _
    rw [hnone]
    rfl
  · refine exists_clientCommands (List.length_pos_iff.mpr hservers) hclients (fun server hlt => ?_)
      hblock hpoint
    exact (Nat.add_le_add_left (Nat.mod_le _ _) _).trans_lt (hports server hlt)
  · intro σ _
    exact Experiment.issues_runTest (fun m hm => Machines.mem_all_of_mem_processes hm) point

/-- Two servers and three clients at one host. -/
theorem processes_apart_oneHost :
    let config := { twoServers ["a", "a", "a"] 4 with servers := ["a", "a"], backends := ["a"] }
    ∃ point ∈ config.points,
      (∃ launches, config.clientCommands (Machines.ofConfig config).clients point = .ok launches ∧
        launches.map Prod.fst = ["a", "a", "a"].map config.machine) ∧
      List.Forall₂ config.StartsProcess
        [.backend 0, .server 0, .server 1, .client 1, .client 5, .client 9]
        ((Experiment.ofConfig config).launches point) ∧
      (Finset.range 3).biUnion config.block = Finset.Icc 1 12 := by
  intro config
  have hpoints : config.points ≠ [] := by decide +kernel
  obtain ⟨point, hpoint⟩ := List.exists_mem_of_ne_nil _ hpoints
  obtain ⟨-, hexists, hall, ⟨-, total, -, htotal, hunion⟩,
    ⟨-, ⟨started, -, hstarted, hstart⟩, -⟩, -⟩ := processes_apart (by decide) hpoint
  cases htotal
  obtain ⟨launches, h⟩ := hexists (by decide) (by decide) (by decide)
  refine ⟨point, hpoint, ⟨launches, h, (hall launches h).1⟩, ?_, hunion⟩
  rw [hstart ⟨launches, h⟩] at hstarted
  exact hstarted

/-- A configuration without clients does not even give an empty list of commands. -/
theorem clientCommands_noClients :
    let config : ExperimentConfig := { servers := ["a"] }
    0 < config.sweep.clientsPerMachine ∧ ∃ point ∈ config.points,
      config.clientCommands (Machines.ofConfig config).clients point =
        .error (.refuse .noClientMachines) := by
  intro config
  have hpoints : config.points ≠ [] := by decide +kernel
  obtain ⟨point, hpoint⟩ := List.exists_mem_of_ne_nil _ hpoints
  exact ⟨by decide, point, hpoint, rfl⟩

end ExperimentConfig

end ClusterBench
