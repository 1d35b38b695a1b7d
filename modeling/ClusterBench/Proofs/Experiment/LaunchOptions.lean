import ClusterBench.Proofs.Experiment.ServerShares

/-!
# What launch commands tell about a test

Tests of a sweep with the same prefix have different ids exactly if they differ in their type, in
one of four numbers, or in the six significant digits of the inter-arrival time. The launch commands
of the clients show the type and the numbers too, but the inter-arrival time with six decimals. So
tests with different ids are launched alike exactly if nothing but the inter-arrival time tells them
apart, and it has the same six decimals in both.
-/

namespace ClusterBench

namespace Binary64

theorem equals_notMem_fixed (x : Binary64) {places : ℕ} (h : places ≠ 0) :
    '=' ∉ (x.fixed places).toList := by
  by_cases hx : x.isFinite
  · intro hmem
    rcases allNumeral_fixed hx h _ hmem with hdigit | hmark
    · exact absurd hdigit (by decide)
    · exact absurd hmark (by decide)
  · rw [Bool.not_eq_true] at hx
    rw [fixed_of_not_isFinite hx, specialText, signText]
    cases x.isNaN <;> cases x.negative <;> decide

/-- The text tells the number of last decimals. -/
theorem digitsValue_fixed {x : Binary64} (hx : x.isFinite) {places : ℕ} (h : places ≠ 0) :
    digitsValue ((x.fixed places).toList.filter Char.isDigit) = x.scaled places := by
  have hsign : (signChars x.negative).filter Char.isDigit = [] := by
    cases x.negative <;> rfl
  have hpointed : (pointed (decimalChars places (x.scaled places))).filter Char.isDigit =
      decimalChars places (x.scaled places) := by
    unfold pointed
    split_ifs with hnil
    · rw [hnil]
      rfl
    · rw [List.filter_cons_of_neg (by decide)]
      exact List.filter_eq_self.mpr (allDigits_decimalChars _ _)
  rw [toList_fixed hx h, List.append_nil, List.filter_append, List.filter_append, hsign, hpointed,
    List.filter_eq_self.mpr (allDigits_toDigits _), List.nil_append, digitsValue_toDigits_append h]

/-- Magnitudes with the same decimals are at most one last decimal apart. -/
theorem magnitude_close_of_fixed_eq {x y : Binary64} (hx : x.isFinite) (hy : y.isFinite)
    {places : ℕ} (h : places ≠ 0) (heq : x.fixed places = y.fixed places) :
    |x.magnitude - y.magnitude| ≤ 1 / 10 ^ places := by
  have hpos : (0 : ℚ) < 10 ^ places := by positivity
  have hscaled : x.scaled places = y.scaled places := by
    rw [← digitsValue_fixed hx h, ← digitsValue_fixed hy h, heq]
  have hxn := (isNearest_scaled places x).close
  have hyn := (isNearest_scaled places y).close
  rw [← hscaled] at hyn
  have hstep : |x.magnitude - y.magnitude| * 10 ^ places =
      |x.magnitude * 10 ^ places - y.magnitude * 10 ^ places| := by
    rw [← sub_mul, abs_mul, abs_of_pos hpos]
  rw [le_div_iff₀ hpos, hstep]
  calc
    |x.magnitude * 10 ^ places - y.magnitude * 10 ^ places| ≤
        |x.magnitude * 10 ^ places - x.scaled places| +
          |(x.scaled places : ℚ) - y.magnitude * 10 ^ places| := abs_sub_le _ _ _
    _ ≤ 1 / 2 + 1 / 2 := by
      rw [abs_sub_comm (x.scaled places : ℚ)]
      exact add_le_add hxn hyn
    _ = 1 := by norm_num

end Binary64

namespace TestPoint

/-- Two tests show the same options to their clients: the same type, the same numbers and the same
six decimals of the inter-arrival time. -/
structure SameOptions (p q : TestPoint) : Prop where
  testType : p.testType = q.testType
  batchSize : p.batchSize = q.batchSize
  recordSize : p.recordSize = q.recordSize
  filesPerClient : p.filesPerClient = q.filesPerClient
  writeRatio : p.writeRatio = q.writeRatio
  iat : p.iat.fixed 6 = q.iat.fixed 6

theorem SameOptions.testId_text_eq {p q : TestPoint} (h : p.SameOptions q)
    (hstem : p.testPrefix = q.testPrefix) (htotal : p.totalClients = q.totalClients)
    (hiat : p.iat.general = q.iat.general) :
    p.testId.text = q.testId.text := by
  have hstart : p.testId.prefixText = q.testId.prefixText := by
    simp only [testId, h.testType, hstem]
  have hsystem : p.testId.system ≠ .btrdb := by simp [testId]
  exact TestId.text_eq_iff.mpr ⟨rfl, hstart, htotal, fun h => absurd h hsystem, h.batchSize,
    h.recordSize, h.filesPerClient, h.writeRatio, hiat⟩

end TestPoint

namespace ExperimentConfig

variable {config : ExperimentConfig} {p q : TestPoint} {master : Master} {index : ℕ}

def testOptions (config : ExperimentConfig) (p : TestPoint) : List String :=
  [s!"bs={p.batchSize}",
   s!"rs={p.recordSize}",
   s!"nf={p.filesPerClient}",
   s!"fp={config.runDir}",
   s!"typ={p.testType}",
   s!"tc={p.totalClients}",
   s!"td={p.testDuration}",
   s!"wr={p.writeRatio}",
   s!"iat={p.iat.fixed 6}"]

theorem toList_testOptions (config : ExperimentConfig) (p : TestPoint) :
    (" ".intercalate (config.testOptions p)).toList =
      "bs=".toList ++ (Nat.toDigits 10 p.batchSize ++ ' ' :: ("rs=".toList ++
        (Nat.toDigits 10 p.recordSize ++ ' ' :: ("nf=".toList ++
          (Nat.toDigits 10 p.filesPerClient ++ ' ' :: (s!"fp={config.runDir} typ=".toList ++
            (p.testType.toList ++ s!" tc={p.totalClients} td={p.testDuration} wr".toList ++
              '=' :: Nat.toDigits 10 p.writeRatio ++ " iat".toList ++
                '=' :: (p.iat.fixed 6).toList))))))) := by
  simp [testOptions, String.intercalate_cons_of_ne_nil]

/-- The options tell the type, the numbers and six decimals, whatever text the type is: the numbers
in front of it end at a blank, and what follows it is taken apart from its end. -/
theorem testOptions_eq_iff (htotal : p.totalClients = q.totalClients)
    (hduration : p.testDuration = q.testDuration) :
    " ".intercalate (config.testOptions p) = " ".intercalate (config.testOptions q) ↔
      p.SameOptions q := by
  constructor
  · intro h
    have hlist := congrArg String.toList h
    rw [toList_testOptions, toList_testOptions, htotal, hduration] at hlist
    obtain ⟨hbs, hlist⟩ := toDigits_append_inj rfl (List.append_cancel_left hlist)
    obtain ⟨hrs, hlist⟩ := toDigits_append_inj rfl (List.append_cancel_left hlist)
    obtain ⟨hnf, hlist⟩ := toDigits_append_inj rfl (List.append_cancel_left hlist)
    obtain ⟨hlist, hiat⟩ := eq_of_append_cons_eq (p.iat.equals_notMem_fixed (by decide))
      (q.iat.equals_notMem_fixed (by decide)) (List.append_cancel_left hlist)
    obtain ⟨htype, hwr⟩ := TestPoint.append_digits_inj rfl (List.append_cancel_right hlist)
    exact ⟨String.toList_inj.mp (List.append_cancel_right htype), hbs, hrs, hnf, hwr,
      String.toList_inj.mp hiat⟩
  · rintro ⟨htype, hbs, hrs, hnf, hwr, hiat⟩
    rw [testOptions, testOptions, htype, hbs, hrs, hnf, hwr, hiat, htotal, hduration]

def frontArgs (config : ExperimentConfig) (block : ℕ) : List String :=
  [config.clientJvm.flags,
   "-cp",
   config.clientJvm.classpathArg config.programDir,
   config.clientJvm.mainClass,
   s!"mport={config.clientBasePort}",
   "wt=0",
   s!"nc={block}"]

def backArgs (warmup id : ℕ) (master : Master) (host : String) (port : ℕ) : List String :=
  [s!"wmup={warmup}",
   s!"cid={id}",
   s!"mid={master.id}",
   s!"mip={master.host}",
   s!"sip={host}",
   s!"sport={port}"]

theorem clientArgs_eq (config : ExperimentConfig) (p : TestPoint) (id : ℕ) (master : Master) :
    config.clientArgs p.workload id master = do
      let host ← config.serverFor id
      let port ← config.serverPort id
      return config.frontArgs p.clientsPerMachine ++
        (config.testOptions p ++ backArgs p.warmup id master host port) := rfl

theorem javaCommand_clientArgs (config : ExperimentConfig) (p : TestPoint) (id : ℕ)
    (master : Master) (host : String) (port : ℕ) :
    javaCommand (config.frontArgs p.clientsPerMachine ++
        (config.testOptions p ++ backArgs p.warmup id master host port)) =
      "java " ++ " ".intercalate (config.frontArgs p.clientsPerMachine) ++ " " ++
        " ".intercalate (config.testOptions p) ++
          (" " ++ " ".intercalate (backArgs p.warmup id master host port)) := by
  have hfront : config.frontArgs p.clientsPerMachine ≠ [] := List.cons_ne_nil _ _
  have hoptions : config.testOptions p ≠ [] := List.cons_ne_nil _ _
  have hback : backArgs p.warmup id master host port ≠ [] := List.cons_ne_nil _ _
  rw [javaCommand, String.intercalate_append_of_ne_nil hfront (by simp [hoptions]),
    String.intercalate_append_of_ne_nil hoptions hback]
  simp only [String.append_assoc]

def launchFrame (config : ExperimentConfig) (block warmup : ℕ) (master : Master) (index : ℕ) :
    Except Failure (String × String) := do
  let id ← inWord (index * block + 1)
  let host ← config.serverFor id
  let port ← config.serverPort id
  return (s!"source ~/.bash_profile; cd {config.runDir}; " ++ ("java " ++
      " ".intercalate (config.frontArgs block) ++ " "),
    " " ++ " ".intercalate (backArgs warmup id master host port) ++
      s!" > {config.runDirs.outputFile (.client id)} 2>&1 &")

theorem launchCommand_append (config : ExperimentConfig) (directory front program back : String)
    (process : RunProcess) :
    config.launchCommand directory (front ++ program ++ back) process =
      s!"source ~/.bash_profile; cd {directory}; " ++ front ++ program ++
        (back ++ s!" > {config.runDirs.outputFile process} 2>&1 &") := by
  unfold launchCommand
  simp only [String.append_assoc, toString_string]

theorem clientCommand_eq (config : ExperimentConfig) (p : TestPoint) (master : Master)
    (index : ℕ) : config.clientCommand p master index = do
      let (front, back) ← config.launchFrame p.clientsPerMachine p.warmup master index
      return front ++ " ".intercalate (config.testOptions p) ++ back := by
  unfold clientCommand launchFrame
  simp only [clientArgs_eq, bind_assoc, pure_bind]
  refine bind_congr fun id => bind_congr fun host => bind_congr fun port => congrArg pure ?_
  rw [javaCommand_clientArgs, launchCommand_append]

/-- Tests of one sweep are launched with the same command by the same process exactly if they show
the same options. -/
theorem clientCommand_eq_iff (hp : p ∈ config.points) (hq : q ∈ config.points) {command : String}
    (h : config.clientCommand p master index = .ok command) :
    ∃ other, config.clientCommand q master index = .ok other ∧
      (command = other ↔ p.SameOptions q) := by
  obtain ⟨-, -, -, -, -, -, hblock, htotal, hduration, hwarmup⟩ :=
    SweepConfig.mem_points.mp (mem_points.mp hp).2
  obtain ⟨-, -, -, -, -, -, hblock', htotal', hduration', hwarmup'⟩ :=
    SweepConfig.mem_points.mp (mem_points.mp hq).2
  rw [clientCommand_eq, hblock, hwarmup] at h
  obtain ⟨⟨front, back⟩, hframe, hcommand⟩ := bind_eq_ok.mp h
  cases hcommand
  refine ⟨front ++ " ".intercalate (config.testOptions q) ++ back, ?_, ?_⟩
  · rw [clientCommand_eq, hblock', hwarmup', hframe]
    rfl
  · rw [String.append_left_inj, String.append_right_inj,
      testOptions_eq_iff (htotal.trans htotal'.symm) (hduration.trans hduration'.symm)]

theorem clientCommands_eq_iff (hp : p ∈ config.points) (hq : q ∈ config.points)
    {clients : List Machine} {launches : List (Machine × String)}
    (h : config.clientCommands clients p = .ok launches) :
    ∃ others, config.clientCommands clients q = .ok others ∧
      (launches = others ↔ p.SameOptions q) := by
  cases clients with
  | nil => cases h
  | cons first clients =>
    apply mapM_eq_iff (by simp) h
    rintro ⟨m, index⟩ - launch hlaunch
    obtain ⟨command, hcommand, hpure⟩ := bind_eq_ok.mp hlaunch
    cases hpure
    obtain ⟨other, hother, hiff⟩ := clientCommand_eq_iff hp hq hcommand
    exact ⟨(m, other), by simp only [hother]; rfl, by simp [hiff]⟩

theorem clientCommand_cases (hservers : 0 < config.servers.length)
    (hid : index * p.clientsPerMachine + 1 < 2 ^ wordBits) (master : Master) :
    let server := (index * p.clientsPerMachine + 1) % config.servers.length
    let port := config.serverBasePort + server % 2 ^ portBits
    (∃ command, config.clientCommand p master index = .ok command ∧ port < 2 ^ portBits) ∨
      config.clientCommand p master index = .error .broken ∧ 2 ^ portBits ≤ port := by
  intro server port
  have hlt : server < config.servers.length := Nat.mod_lt _ hservers
  have hhost : config.serverFor (index * p.clientsPerMachine + 1) = .ok config.servers[server] := by
    rw [serverFor, List.getElem?_eq_getElem hlt]
  have hport : config.serverPort (index * p.clientsPerMachine + 1) =
      if port < 2 ^ portBits then .ok port else .error .broken := by
    rw [serverPort, if_neg (by simpa using List.length_pos_iff.mp hservers)]
  rw [clientCommand_eq, launchFrame, inWord_eq_ok.mpr ⟨hid, rfl⟩, ok_bind, hhost, hport]
  by_cases hfits : port < 2 ^ portBits
  · rw [if_pos hfits]
    exact Or.inl ⟨_, rfl, hfits⟩
  · rw [if_neg hfits]
    exact Or.inr ⟨rfl, not_lt.mp hfits⟩

/-- Clients with numbers that fit have launch commands, unless the port of a server does not. -/
theorem clientCommands_cases (hservers : 0 < config.servers.length) (hclients : config.clients ≠ [])
    (hids : ∀ index < config.clients.length, index * p.clientsPerMachine + 1 < 2 ^ wordBits) :
    let clients := (Machines.ofConfig config).clients
    let server index := (index * p.clientsPerMachine + 1) % config.servers.length
    let port index := config.serverBasePort + server index % 2 ^ portBits
    (∃ launches, config.clientCommands clients p = .ok launches ∧
        ∀ index < config.clients.length, port index < 2 ^ portBits) ∨
      config.clientCommands clients p = .error .broken ∧
        ∃ index < config.clients.length, 2 ^ portBits ≤ port index := by
  intro clients server port
  have hlength : clients.length = config.clients.length := List.length_map _
  have hclients : clients ≠ [] := by simpa [clients, Machines.ofConfig] using hclients
  obtain ⟨first, rest, heq⟩ := List.exists_cons_of_ne_nil hclients
  let step (a : Machine × ℕ) : Except Failure (Machine × String) := do
    return (a.1, ← config.clientCommand p ⟨1, first.host⟩ a.2)
  have hcommands : config.clientCommands clients p = clients.zipIdx.mapM step := by
    rw [heq]
    rfl
  have hstep : ∀ a ∈ clients.zipIdx, (∃ launch, step a = .ok launch ∧ port a.2 < 2 ^ portBits) ∨
      ∃ e, step a = .error e ∧ (e = .broken ∧ 2 ^ portBits ≤ port a.2) := by
    rintro ⟨m, index⟩ hmem
    have hid := hids index ((List.mem_zipIdx' hmem).1.trans_eq hlength)
    rcases clientCommand_cases hservers hid ⟨1, first.host⟩ with
      ⟨command, hcommand, hfits⟩ | ⟨hbroken, hlarge⟩
    · exact Or.inl ⟨(m, command), by simp only [step, hcommand]; rfl, hfits⟩
    · exact Or.inr ⟨.broken, by simp only [step, hbroken]; rfl, rfl, hlarge⟩
  rw [hcommands, ← hlength]
  rcases mapM_cases hstep with ⟨launches, h, hall⟩ | ⟨e, he, ⟨m, index⟩, hmem, rfl, hlarge⟩
  · refine Or.inl ⟨launches, h, fun index hindex => ?_⟩
    have hfits := hall.get (by simpa using hindex) (by simpa [← hall.length_eq] using hindex)
    simpa using hfits
  · exact Or.inr ⟨he, index, (List.mem_zipIdx' hmem).1, hlarge⟩

theorem exists_clientCommands (hservers : 0 < config.servers.length)
    (hclients : config.clients ≠ [])
    (hports : ∀ server < config.servers.length,
      config.serverBasePort + server % 2 ^ portBits < 2 ^ portBits)
    (hblock : 0 < config.sweep.clientsPerMachine) (hp : p ∈ config.points) :
    ∃ launches, config.clientCommands (Machines.ofConfig config).clients p = .ok launches := by
  have hids (index : ℕ) := clientId_lt_of_mem_points hblock hp (i := index)
  rcases clientCommands_cases hservers hclients hids with ⟨launches, h, -⟩ | ⟨-, index, -, hlarge⟩
  · exact ⟨launches, h⟩
  · have hlt := Nat.mod_lt (index * p.clientsPerMachine + 1) hservers
    exact absurd (hports _ hlt) (not_lt.mpr hlarge)

/-- Tests with the same prefix and different ids have different launch commands, unless only their
inter-arrival times tell them apart and these have the same six decimals; such times are at most a
millionth apart. -/
theorem clientCommands_ne_iff (hvalid : config.validate = .ok ()) (hp : p ∈ config.points)
    (hq : q ∈ config.points) (hstem : p.testPrefix = q.testPrefix)
    (hid : p.testId.text ≠ q.testId.text) :
    let clients := (Machines.ofConfig config).clients
    ((∀ server < config.servers.length,
        config.serverBasePort + server % 2 ^ portBits < 2 ^ portBits) →
      ∃ launches, config.clientCommands clients p = .ok launches) ∧
    ∀ launches, config.clientCommands clients p = .ok launches →
      ∃ others, config.clientCommands clients q = .ok others ∧
        (launches ≠ others ↔ ¬ p.SameOptions q) ∧
        (launches = others → p.iat.general ≠ q.iat.general ∧
          (p.iat.isFinite → q.iat.isFinite →
            |p.iat.magnitude - q.iat.magnitude| ≤ 1 / 10 ^ 6)) := by
  intro clients
  refine ⟨fun hports => exists_clientCommands (validate_servers hvalid) (validate_clients hvalid)
    hports (validate_clientsPerMachine hvalid) hp, fun launches h => ?_⟩
  obtain ⟨others, hothers, hiff⟩ := clientCommands_eq_iff hp hq h
  refine ⟨others, hothers, not_congr hiff, fun heq => ?_⟩
  have hsame := hiff.mp heq
  refine ⟨fun hgeneral => hid ?_, fun hpf hqf =>
    Binary64.magnitude_close_of_fixed_eq hpf hqf (by decide) hsame.iat⟩
  obtain ⟨-, -, -, -, -, -, -, htotal, -⟩ := SweepConfig.mem_points.mp (mem_points.mp hp).2
  obtain ⟨-, -, -, -, -, -, -, htotal', -⟩ := SweepConfig.mem_points.mp (mem_points.mp hq).2
  exact hsame.testId_text_eq hstem (htotal.trans htotal'.symm) hgeneral

def oneClient (iats : List Binary64) : ExperimentConfig where
  servers := ["a"]
  clients := ["b"]
  sweep := { loads := [⟨10000, 100, iats⟩] }

def oneClientPoint (iat : Binary64) : TestPoint :=
  ⟨"rw", "kw48", 10000, 100, 1, 16, iat, 1, 10, 10, 60, 120⟩

theorem mem_points_oneClient {iat : Binary64} {iats : List Binary64} (h : iat ∈ iats) :
    oneClientPoint iat ∈ (oneClient iats).points := by
  have hcount : (oneClient iats).clientCount = 10 := rfl
  rw [mem_points, hcount]
  exact ⟨by decide, SweepConfig.mem_points.mpr (by simpa [oneClient, oneClientPoint] using h)⟩

theorem sameOptions_oneClientPoint {x y : Binary64} (h : x.fixed 6 = y.fixed 6) :
    (oneClientPoint x).SameOptions (oneClientPoint y) := ⟨rfl, rfl, rfl, rfl, rfl, h⟩

theorem clientCommands_ne_iff_oneClient :
    let config := oneClient [1.0, 2.0]
    let clients := (Machines.ofConfig config).clients
    let p := oneClientPoint 1.0
    let q := oneClientPoint 2.0
    p ∈ config.points ∧ q ∈ config.points ∧ p.testPrefix = q.testPrefix ∧
      p.testId.text ≠ q.testId.text ∧ ∃ launches others,
        config.clientCommands clients p = .ok launches ∧
          config.clientCommands clients q = .ok others ∧ launches ≠ others := by
  intro config clients p q
  have hp : p ∈ config.points := mem_points_oneClient List.mem_cons_self
  have hq : q ∈ config.points :=
    mem_points_oneClient (List.mem_cons_of_mem _ List.mem_cons_self)
  have hid : p.testId.text ≠ q.testId.text := by decide +kernel
  have hstem : p.testPrefix = q.testPrefix := Eq.refl "kw48"
  obtain ⟨hexists, hall⟩ := clientCommands_ne_iff rfl hp hq hstem hid
  obtain ⟨launches, h⟩ := hexists (by decide)
  obtain ⟨others, hothers, hne, -⟩ := hall launches h
  refine ⟨hp, hq, hstem, hid, launches, others, h, hothers, hne.mpr fun hsame => ?_⟩
  exact absurd hsame.iat (by decide +kernel)

/-- Two inter-arrival times that show as zero in the launch commands. -/
theorem clientCommands_sameDecimals :
    let config := oneClient [1e-7, 2e-7]
    let clients := (Machines.ofConfig config).clients
    let p := oneClientPoint 1e-7
    let q := oneClientPoint 2e-7
    config.validate = .ok () ∧ p ∈ config.points ∧ q ∈ config.points ∧
      p.testPrefix = q.testPrefix ∧ p.testId.text ≠ q.testId.text ∧
      ∃ launches, config.clientCommands clients p = .ok launches ∧
        config.clientCommands clients q = .ok launches := by
  intro config clients p q
  have hp : p ∈ config.points := mem_points_oneClient List.mem_cons_self
  have hq : q ∈ config.points :=
    mem_points_oneClient (List.mem_cons_of_mem _ List.mem_cons_self)
  have hsame : p.SameOptions q := sameOptions_oneClientPoint (by decide +kernel)
  have hvalid : config.validate = .ok () := rfl
  obtain ⟨launches, h⟩ := exists_clientCommands (validate_servers hvalid)
    (validate_clients hvalid) (by decide) (by decide) hp
  obtain ⟨others, hothers, hiff⟩ := clientCommands_eq_iff hp hq h
  rw [← hiff.mpr hsame] at hothers
  exact ⟨hvalid, hp, hq, Eq.refl "kw48", by decide +kernel, launches, h, hothers⟩

end ExperimentConfig

end ClusterBench
