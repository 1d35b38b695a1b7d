import ClusterBench.Proofs.Computations
import ClusterBench.Proofs.Experiment.TestDirs

/-!
# How clients are spread over the servers

Client processes are numbered by the blocks of clients that they run, and a process takes the server
that its number has when servers are counted in turn. So it depends on what the size of a block and
the number of servers have in common which servers are used at all. Those that are used get the same
number of processes, up to one.
-/

namespace ClusterBench

theorem countP_zipIdx {α : Type} {as : List α} {q : α × ℕ → Bool} {p : ℕ → Prop} [DecidablePred p]
    (h : ∀ i (hi : i < as.length), q (as[i], i) ↔ p i) :
    as.zipIdx.countP q = as.length.count p := by
  induction as using List.reverseRecOn with
  | nil => rfl
  | append_singleton as a ih =>
    have hinit : as.zipIdx.countP q = as.length.count p := by
      apply ih
      intro i hi
      have := h i (by simp; omega)
      rwa [List.getElem_append_left hi] at this
    have hlast : q (a, as.length) ↔ p as.length := by
      simpa using h as.length (by simp)
    rw [List.zipIdx_append, List.countP_append, hinit, List.length_append, List.length_singleton,
      Nat.count_succ]
    simp [hlast]

section Strides

variable {servers block : ℕ}

theorem stride_eq_iff (h : 0 < servers) {i k : ℕ} :
    (i * block + 1) % servers = (k * block + 1) % servers ↔
      i ≡ k [MOD servers / servers.gcd block] := by
  have hblock : servers ∣ servers / servers.gcd block * block := by
    rw [Nat.div_mul_right_comm (Nat.gcd_dvd_left servers block),
      Nat.mul_div_assoc _ (Nat.gcd_dvd_right servers block)]
    exact Nat.dvd_mul_right _ _
  constructor
  · intro heq
    exact Nat.ModEq.cancel_right_div_gcd h (Nat.ModEq.add_right_cancel' 1 heq)
  · intro heq
    exact ((heq.mul_right' block).of_dvd hblock).add_right 1

theorem stride_modEq_one (i : ℕ) :
    (i * block + 1) % servers ≡ 1 [MOD servers.gcd block] := by
  have hblock : i * block ≡ 0 [MOD servers.gcd block] :=
    (Nat.modEq_zero_iff_dvd.mpr ((Nat.gcd_dvd_right servers block).mul_left i))
  have hmod := (Nat.mod_modEq (i * block + 1) servers).of_dvd (Nat.gcd_dvd_left servers block)
  exact hmod.trans (hblock.add_right 1)

theorem exists_stride {j : ℕ} (hj : j < servers) (h : j ≡ 1 [MOD servers.gcd block]) :
    ∃ i, (i * block + 1) % servers = j := by
  obtain ⟨q, hq⟩ := Nat.modEq_iff_dvd.mp h.symm
  have hpos : (0 : ℤ) < servers := by omega
  have hbezout := Nat.gcd_eq_gcd_ab servers block
  set b := Nat.gcdB servers block
  refine ⟨(b * q % servers).toNat, Nat.ModEq.eq_of_lt_of_lt ?_ (Nat.mod_lt _ (by omega)) hj⟩
  apply (Nat.mod_modEq _ _).trans
  rw [← Int.natCast_modEq_iff]
  have hnat : ((b * q % servers).toNat : ℤ) = b * q % servers :=
    Int.toNat_of_nonneg (Int.emod_nonneg _ hpos.ne')
  push_cast
  rw [hnat]
  have hmod : b * q % servers ≡ b * q [ZMOD servers] := Int.mod_modEq _ _
  apply ((hmod.mul_right block).add_right 1).trans
  apply Int.modEq_iff_dvd.mpr
  refine ⟨Nat.gcdA servers block * q, ?_⟩
  push_cast at hq
  linear_combination hq + hbezout * q

/-- How many of the first `n` strides end at a remainder. -/
def strideCount (servers block n j : ℕ) : ℕ :=
  n.count fun i => (i * block + 1) % servers = j

theorem strideCount_eq_zero {n j : ℕ} (h : ¬ j ≡ 1 [MOD servers.gcd block]) :
    strideCount servers block n j = 0 := by
  have hnone : ∀ i, ¬ (i * block + 1) % servers = j := by
    rintro i rfl
    exact h (stride_modEq_one i)
  simp [strideCount, hnone]

/-- Each remainder that occurs at all occurs equally often, up to one. -/
theorem strideCount_bounds {j : ℕ} (hj : j < servers) (h : j ≡ 1 [MOD servers.gcd block])
    (n : ℕ) :
    let period := servers / servers.gcd block
    n / period ≤ strideCount servers block n j ∧ strideCount servers block n j ≤ n / period + 1 ∧
      (n ≤ period → strideCount servers block n j ≤ 1) := by
  intro period
  have hservers : 0 < servers := by omega
  have hperiod : 0 < period :=
    Nat.div_pos (Nat.gcd_le_left block hservers) (Nat.gcd_pos_of_pos_left block hservers)
  obtain ⟨k, hk⟩ := exists_stride hj h
  have hcount : strideCount servers block n j = n.count (· ≡ k [MOD period]) := by
    unfold strideCount
    congr 1
    funext i
    rw [← hk, stride_eq_iff hservers]
  rw [hcount, Nat.count_modEq_card n hperiod]
  refine ⟨Nat.le_add_right _ _, by split_ifs <;> omega, fun hn => ?_⟩
  rcases hn.lt_or_eq with hlt | rfl
  · rw [Nat.div_eq_of_lt hlt]
    split_ifs <;> omega
  · rw [Nat.div_self hperiod, Nat.mod_self]
    simp

theorem two_le_strideCount {n : ℕ} (hservers : 0 < servers)
    (h : servers / servers.gcd block < n) :
    2 ≤ strideCount servers block n (1 % servers) := by
  set period := servers / servers.gcd block
  have hperiod : 1 ≤ period :=
    Nat.div_pos (Nat.gcd_le_left block hservers) (Nat.gcd_pos_of_pos_left block hservers)
  have hzero : (0 * block + 1) % servers = 1 % servers := by rw [Nat.zero_mul, Nat.zero_add]
  have hagain : (period * block + 1) % servers = 1 % servers := by
    rw [← hzero, stride_eq_iff hservers]
    exact Nat.modEq_zero_iff_dvd.mpr dvd_rfl
  unfold strideCount
  calc
    2 = Nat.count (fun i => (i * block + 1) % servers = 1 % servers) 1 + 1 := by
      rw [Nat.count_one, if_pos hzero]
    _ ≤ Nat.count (fun i => (i * block + 1) % servers = 1 % servers) period + 1 :=
      Nat.succ_le_succ (Nat.count_monotone _ hperiod)
    _ = Nat.count (fun i => (i * block + 1) % servers = 1 % servers) (period + 1) := by
      rw [Nat.count_succ, if_pos hagain]
    _ ≤ _ := Nat.count_monotone _ h

/-- All remainders occur equally often, up to one, exactly if the block has nothing in common with
the number of servers or if no remainder occurs twice. -/
theorem strideCount_balanced_iff (hservers : 0 < servers) (n : ℕ) :
    (∀ j < servers, ∀ k < servers,
        strideCount servers block n j ≤ strideCount servers block n k + 1) ↔
      servers.gcd block = 1 ∨ n ≤ servers / servers.gcd block := by
  constructor
  · intro hbalanced
    by_contra! hnot
    obtain ⟨hgcd, hn⟩ := hnot
    have htwo := two_le_strideCount hservers hn
    have hzero : strideCount servers block n 0 = 0 := by
      apply strideCount_eq_zero
      intro h
      exact hgcd (Nat.dvd_one.mp ((Nat.modEq_zero_iff_dvd).mp h.symm))
    have hle := hbalanced (1 % servers) (Nat.mod_lt _ hservers) 0 hservers
    omega
  · intro h j hj k hk
    by_cases hused : j ≡ 1 [MOD servers.gcd block]
    · obtain ⟨-, hle, hone⟩ := strideCount_bounds hj hused n
      rcases h with hgcd | hn
      · obtain ⟨hge, -⟩ := strideCount_bounds hk (by rw [hgcd]; exact Nat.modEq_one) n
        omega
      · have := hone hn
        omega
    · rw [strideCount_eq_zero hused]
      exact Nat.zero_le _

end Strides

namespace ExperimentConfig

variable (config : ExperimentConfig)

def address (id : ℕ) (host : String) (port : ℕ) : String :=
  s!" sip={host} sport={port}" ++ s!" > {config.runDirs.outputFile (.client id)} 2>&1 &"

def connection (id : ℕ) (host : String) (server : ℕ) : String :=
  s!" sip={host} sport={config.serverBasePort + server % 2 ^ portBits}" ++
    s!" > {config.runDirs.outputFile (.client id)} 2>&1 &"

/-- The launch command of a client process connects to a server. -/
def ConnectsTo (id server : ℕ) (command : String) : Prop :=
  ∃ host ∈ config.servers[server]?, (config.connection id host server).toList <:+ command.toList

instance (id server : ℕ) (command : String) :
    Decidable (config.ConnectsTo id server command) := by
  unfold ConnectsTo
  infer_instance

variable {config} {point : TestPoint} {master : Master} {id server : ℕ} {host command : String}

theorem validate_servers (h : config.validate = .ok ()) : 0 < config.servers.length := by
  unfold validate at h
  split_ifs at h with _ hservers
  exact List.length_pos_iff.mpr (by simpa using hservers)

theorem validate_clients (h : config.validate = .ok ()) : config.clients ≠ [] := by
  unfold validate at h
  split_ifs at h with _ _ hclients
  simpa using hclients

theorem validate_clientsPerMachine (h : config.validate = .ok ()) :
    0 < config.sweep.clientsPerMachine := by
  unfold validate at h
  split_ifs at h with _ _ _ hblock
  exact Nat.pos_of_ne_zero hblock

/-- The number of a client process is the first of a block of clients, all of which are counted. -/
theorem clientId_le_clientCount (hblock : 0 < config.sweep.clientsPerMachine) {i : ℕ}
    (hi : i < config.clients.length) :
    i * config.sweep.clientsPerMachine + 1 ≤ config.clientCount := by
  calc
    i * config.sweep.clientsPerMachine + 1 ≤
        i * config.sweep.clientsPerMachine + config.sweep.clientsPerMachine :=
      Nat.add_le_add_left hblock _
    _ = (i + 1) * config.sweep.clientsPerMachine := (Nat.succ_mul _ _).symm
    _ ≤ config.clientCount := Nat.mul_le_mul_right _ hi

theorem clientsPerMachine_of_mem_points (hpoint : point ∈ config.points) :
    point.clientsPerMachine = config.sweep.clientsPerMachine :=
  (SweepConfig.mem_points.mp (mem_points.mp hpoint).2).2.2.2.2.2.2.1

/-- The numbers of all client processes of a test fit, as the number of all clients does. -/
theorem clientId_lt_of_mem_points (hblock : 0 < config.sweep.clientsPerMachine)
    (hpoint : point ∈ config.points) {i : ℕ} (hi : i < config.clients.length) :
    i * point.clientsPerMachine + 1 < 2 ^ wordBits := by
  rw [clientsPerMachine_of_mem_points hpoint]
  exact (clientId_le_clientCount hblock hi).trans_lt (mem_points.mp hpoint).1

theorem serverFor_eq_ok (h : config.serverFor id = .ok host) :
    config.servers[id % config.servers.length]? = some host := by
  unfold serverFor at h
  split at h
  next heq =>
    cases h
    exact heq
  next => cases h

theorem serverPort_eq_ok {port : ℕ} (h : config.serverPort id = .ok port) :
    port = config.serverBasePort + id % config.servers.length % 2 ^ portBits := by
  unfold serverPort at h
  split_ifs at h
  dsimp only at h
  split_ifs at h
  cases h
  rfl

theorem clientArgs_eq_ok {w : Workload} {args : List String}
    (h : config.clientArgs w id master = .ok args) :
    ∃ front host, front ≠ [] ∧ config.servers[id % config.servers.length]? = some host ∧
      args = front ++ [s!"sip={host}",
        s!"sport={config.serverBasePort + id % config.servers.length % 2 ^ portBits}"] := by
  unfold clientArgs at h
  obtain ⟨host, hhost, h⟩ := bind_eq_ok.mp h
  obtain ⟨port, hport, h⟩ := bind_eq_ok.mp h
  have hlast : args.drop 20 = [s!"sip={host}", s!"sport={port}"] := by
    rw [← Except.ok.inj h]
    rfl
  have hfirst : args.take 20 ≠ [] := by
    rw [← Except.ok.inj h]
    exact List.cons_ne_nil _ _
  refine ⟨args.take 20, host, hfirst, serverFor_eq_ok hhost, ?_⟩
  rw [← serverPort_eq_ok hport, ← hlast, List.take_append_drop]

theorem exists_launchCommand {front : List String} (hfront : front ≠ []) (directory : String) :
    ∃ start, config.launchCommand directory (javaCommand (front ++ [s!"sip={host}",
        s!"sport={config.serverBasePort + server % 2 ^ portBits}"])) (.client id) =
      start ++ config.connection id host server := by
  have hjava (a b : String) : javaCommand (front ++ [a, b]) =
      "java " ++ (" ".intercalate front ++ " " ++ (a ++ " " ++ b)) := by
    rewrite [javaCommand, String.intercalate_append_of_ne_nil hfront (List.cons_ne_nil _ _)]
    rfl
  have hsip : " sip=" = " " ++ "sip=" := rfl
  have hsport : " sport=" = " " ++ "sport=" := rfl
  refine ⟨s!"source ~/.bash_profile; cd {directory}; " ++ ("java " ++ " ".intercalate front), ?_⟩
  rewrite [hjava]
  unfold launchCommand connection
  simp only [hsip, hsport, String.append_assoc, toString_string]

/-- A launch command ends with the address of the server that the client connects to, and with the
file for its output. -/
theorem exists_clientCommand {index : ℕ}
    (h : config.clientCommand point master index = .ok command) :
    let id := index * point.clientsPerMachine + 1
    let server := id % config.servers.length
    ∃ start host, config.servers[server]? = some host ∧
      command = start ++ config.connection id host server := by
  obtain ⟨id, hid, hrest⟩ := bind_eq_ok.mp h
  obtain ⟨-, rfl⟩ := inWord_eq_ok.mp hid
  obtain ⟨args, hargs, hcommand⟩ := bind_eq_ok.mp hrest
  obtain ⟨front, host, hfront, hhost, rfl⟩ := clientArgs_eq_ok hargs
  obtain ⟨start, hstart⟩ := exists_launchCommand hfront config.runDir
  exact ⟨start, host, hhost, (Except.ok.inj hcommand).symm.trans hstart⟩

theorem connectsTo_self (hhost : config.servers[server]? = some host) (start : String) :
    config.ConnectsTo id server (start ++ config.connection id host server) :=
  ⟨host, hhost, by simp⟩

theorem connection_eq_address (id : ℕ) (host : String) (server : ℕ) :
    config.connection id host server =
      config.address id host (config.serverBasePort + server % 2 ^ portBits) := rfl

theorem toList_address (id : ℕ) (host : String) (port : ℕ) :
    ∃ start, (config.address id host port).toList =
      (start ++ '=' :: Nat.toDigits 10 port) ++
        s!" > {config.runDirs.outputFile (.client id)} 2>&1 &".toList := by
  refine ⟨s!" sip={host} sport".toList, ?_⟩
  unfold address
  rw [String.toList_append]
  congr 1
  simp

/-- Where a launch command ends with an address, the port is the one that it was given. -/
theorem port_eq_of_address {start host' : String} {port port' : ℕ}
    (h : (config.address id host' port').toList <:+
      (start ++ config.address id host port).toList) : port' = port := by
  obtain ⟨start', hstart⟩ := h
  obtain ⟨front, hfront⟩ := config.toList_address id host port
  obtain ⟨front', hfront'⟩ := config.toList_address id host' port'
  rw [String.toList_append, hfront, hfront', ← List.append_assoc, ← List.append_assoc,
    ← List.append_assoc, ← List.append_assoc] at hstart
  exact (TestPoint.append_digits_inj rfl (List.append_cancel_right hstart)).2

/-- As long as there are no more servers than ports, a connection belongs to one server. -/
theorem eq_of_connectsTo {other : ℕ} {start : String} (hfew : config.servers.length ≤ 2 ^ portBits)
    (hhost : config.servers[server]? = some host)
    (h : config.ConnectsTo id other (start ++ config.connection id host server)) :
    other = server := by
  obtain ⟨host', hhost', hsuffix⟩ := h
  have hmod := Nat.add_left_cancel (port_eq_of_address hsuffix)
  have hlt {j : ℕ} {host : String} (h : config.servers[j]? = some host) : j < 2 ^ portBits :=
    (List.getElem?_eq_some_iff.mp h).choose.trans_le hfew
  rwa [Nat.mod_eq_of_lt (hlt hhost'), Nat.mod_eq_of_lt (hlt hhost)] at hmod

/-- Every client process is launched at its machine, and all are told of the first one. -/
theorem forall₂_clientCommands {clients : List Machine} {launches : List (Machine × String)}
    (h : config.clientCommands clients point = .ok launches) :
    ∃ first ∈ clients.head?, List.Forall₂ (fun (m, index) launch => launch.1 = m ∧
      config.clientCommand point ⟨1, first.host⟩ index = .ok launch.2)
        clients.zipIdx launches := by
  unfold clientCommands at h
  split at h
  · cases h
  next first _ =>
    refine ⟨first, rfl, (forall₂_of_mapM_eq_ok h).imp ?_⟩
    rintro ⟨m, index⟩ launch hlaunch
    obtain ⟨command, hcommand, hpure⟩ := bind_eq_ok.mp hlaunch
    cases hpure
    exact ⟨rfl, hcommand⟩

variable (config) in
def connected (point : TestPoint) (launches : List (Machine × String)) (server : ℕ) : ℕ :=
  launches.zipIdx.countP fun (launch, index) =>
    config.ConnectsTo (index * point.clientsPerMachine + 1) server launch.2

theorem exists_clientCommand_eq_ok {clients : List Machine} {launches : List (Machine × String)}
    (h : config.clientCommands clients point = .ok launches) {i : ℕ} (hi : i < launches.length) :
    ∃ master, config.clientCommand point master i = .ok launches[i].2 := by
  obtain ⟨first, -, hall⟩ := forall₂_clientCommands h
  have hlength := hall.length_eq
  have hcommand := hall.get (by omega) hi
  simp only [List.get_eq_getElem, List.getElem_zipIdx, zero_add] at hcommand
  exact ⟨_, hcommand.2⟩

theorem connectsTo_launch {clients : List Machine} {launches : List (Machine × String)}
    (h : config.clientCommands clients point = .ok launches) {i : ℕ} (hi : i < launches.length) :
    let id := i * point.clientsPerMachine + 1
    config.ConnectsTo id (id % config.servers.length) launches[i].2 ∧
      (config.servers.length ≤ 2 ^ portBits → ∀ server,
        config.ConnectsTo id server launches[i].2 → server = id % config.servers.length) := by
  obtain ⟨master, hcommand⟩ := exists_clientCommand_eq_ok h hi
  obtain ⟨start, host, hhost, hstart⟩ := exists_clientCommand hcommand
  intro id
  rw [hstart]
  exact ⟨connectsTo_self hhost start, fun hfew server => eq_of_connectsTo hfew hhost⟩

theorem length_clientCommands {clients : List Machine} {launches : List (Machine × String)}
    (h : config.clientCommands clients point = .ok launches) :
    launches.length = clients.length := by
  obtain ⟨first, -, hall⟩ := forall₂_clientCommands h
  rw [← hall.length_eq, List.length_zipIdx]

theorem connected_eq_strideCount {clients : List Machine} {launches : List (Machine × String)}
    (h : config.clientCommands clients point = .ok launches)
    (hfew : config.servers.length ≤ 2 ^ portBits) (server : ℕ) :
    config.connected point launches server =
      strideCount config.servers.length point.clientsPerMachine launches.length server := by
  apply countP_zipIdx
  intro i hi
  obtain ⟨hself, honly⟩ := connectsTo_launch h hi
  rw [decide_eq_true_eq]
  constructor
  · intro hserver
    exact (honly hfew server hserver).symm
  · rintro rfl
    exact hself

/-- Client process `i` connects to server `i * block + 1`, counted in turn. So the servers that are
used are those whose numbers are one modulo what the block and the number of servers have in common;
they get equally many processes, up to one, and the others get none. All servers do so exactly if
there is nothing in common or too few processes for a second turn. There is a test only if the
clients can be counted, so the numbers of the processes fit. -/
theorem clientCommands_shares (hvalid : config.validate = .ok ()) (hpoint : point ∈ config.points)
    {launches : List (Machine × String)}
    (h : config.clientCommands (Machines.ofConfig config).clients point = .ok launches) :
    let servers := config.servers.length
    let block := config.sweep.clientsPerMachine
    let period := servers / servers.gcd block
    let share := strideCount servers block launches.length
    launches.length = config.clients.length ∧
      (launches.length * block < 2 ^ wordBits ∧
        ∀ i < launches.length, i * block + 1 ≤ launches.length * block) ∧
      (∀ i (hi : i < launches.length),
        config.ConnectsTo (i * block + 1) ((i * block + 1) % servers) launches[i].2) ∧
      (servers ≤ 2 ^ portBits → ∀ server, config.connected point launches server = share server) ∧
      (∀ server < servers, ¬ server ≡ 1 [MOD servers.gcd block] → share server = 0) ∧
      (∀ server < servers, server ≡ 1 [MOD servers.gcd block] →
        launches.length / period ≤ share server ∧
          share server ≤ launches.length / period + 1) ∧
      ((∀ j < servers, ∀ k < servers, share j ≤ share k + 1) ↔
        servers.gcd block = 1 ∨ launches.length ≤ period) := by
  intro servers block period share
  have hblock : point.clientsPerMachine = block := clientsPerMachine_of_mem_points hpoint
  have hlength : launches.length = config.clients.length :=
    (length_clientCommands h).trans (List.length_map _)
  refine ⟨hlength, ?_, ?_, ?_, ?_, ?_, ?_⟩
  · rw [hlength]
    exact ⟨(mem_points.mp hpoint).1, fun i hi =>
      clientId_le_clientCount (validate_clientsPerMachine hvalid) hi⟩
  · intro i hi
    have hself := (connectsTo_launch h hi).1
    rwa [hblock] at hself
  · intro hfew server
    rw [connected_eq_strideCount h hfew, hblock]
  · exact fun server _ => strideCount_eq_zero
  · intro server hserver hused
    obtain ⟨hge, hle, -⟩ := strideCount_bounds hserver hused launches.length
    exact ⟨hge, hle⟩
  · exact strideCount_balanced_iff (validate_servers hvalid) launches.length

def twoServers (clients : List String) (block : ℕ) : ExperimentConfig where
  servers := ["a", "b"]
  clients := clients
  sweep := { clientsPerMachine := block }

theorem clientCommands_shares_coprime :
    let config := twoServers ["c", "d", "e"] 3
    config.validate = .ok () ∧ ∃ point ∈ config.points, ∃ launches,
      config.clientCommands (Machines.ofConfig config).clients point = .ok launches ∧
        config.connected point launches 0 ≤ config.connected point launches 1 + 1 ∧
        config.connected point launches 1 ≤ config.connected point launches 0 + 1 := by
  intro config
  have hvalid : config.validate = .ok () := rfl
  have hok : ∃ point ∈ (twoServers ["c", "d", "e"] 3).points,
      ((twoServers ["c", "d", "e"] 3).clientCommands
        (Machines.ofConfig (twoServers ["c", "d", "e"] 3)).clients point).isOk := by
    decide +kernel
  obtain ⟨point, hpoint, hok⟩ := hok
  obtain ⟨launches, h⟩ := exists_eq_ok_of_isOk hok
  obtain ⟨-, -, -, hshare, -, -, hbalanced⟩ := clientCommands_shares hvalid hpoint h
  have hall := hbalanced.mpr (Or.inl (by decide))
  refine ⟨hvalid, point, hpoint, launches, h, ?_⟩
  rw [hshare (by decide) 0, hshare (by decide) 1]
  exact ⟨hall 0 (by decide) 1 (by decide), hall 1 (by decide) 0 (by decide)⟩

/-- Blocks of ten have a factor in common with two servers: both clients go to the second one. -/
theorem clientCommands_uneven :
    let config := twoServers ["c", "d"] 10
    config.validate = .ok () ∧ ∃ point ∈ config.points, ∃ launches,
      config.clientCommands (Machines.ofConfig config).clients point = .ok launches ∧
        config.servers.length ≤ launches.length ∧
        config.connected point launches 0 = 0 ∧ config.connected point launches 1 = 2 := by
  intro config
  have hok : ∃ point ∈ (twoServers ["c", "d"] 10).points, point.clientsPerMachine = 10 ∧
      ((twoServers ["c", "d"] 10).clientCommands
        (Machines.ofConfig (twoServers ["c", "d"] 10)).clients point).isOk := by
    decide +kernel
  obtain ⟨point, hpoint, hblock, hok⟩ := hok
  obtain ⟨launches, h⟩ := exists_eq_ok_of_isOk hok
  have hlength : launches.length = 2 := length_clientCommands h
  refine ⟨rfl, point, hpoint, launches, h, hlength.ge, ?_⟩
  rw [connected_eq_strideCount h (by decide), connected_eq_strideCount h (by decide), hblock,
    hlength]
  decide

end ExperimentConfig

end ClusterBench
