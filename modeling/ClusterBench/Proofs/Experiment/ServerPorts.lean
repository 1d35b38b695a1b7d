import ClusterBench.Proofs.Experiment.LaunchOptions

/-!
# Ports of the servers

The servers of an experiment have consecutive ports from a base port on, and a client process is
launched with the host and the port of its server. The numbers of clients are bounded by their
total, and the number of a server is always that of a host. A port has sixteen bits, though, and so
has the number of a server when it is added to the base port. A valid configuration may list more
servers than there are ports above its base port: then launching the clients breaks down, or they
are launched with the ports of other servers. It may also ask for more clients than a machine word
counts: then the whole batch breaks down.
-/

namespace ClusterBench

namespace ExperimentConfig

/-- The launch command of a client process has the address of a server: its host, and a port as far
above the base port as its number says. -/
def AddressedTo (config : ExperimentConfig) (id server : ℕ) (command : String) : Prop :=
  ∃ host ∈ config.servers[server]?,
    (config.address id host (config.serverBasePort + server)).toList <:+ command.toList

variable {config : ExperimentConfig} {point : TestPoint}

/-- A process is launched with the address of its server exactly if the port of the server fits. -/
theorem addressedTo_iff {master : Master} {index : ℕ} {command : String}
    (hservers : 0 < config.servers.length)
    (h : config.clientCommand point master index = .ok command) :
    let id := index * point.clientsPerMachine + 1
    let server := id % config.servers.length
    config.AddressedTo id server command ↔ config.serverBasePort + server < 2 ^ portBits := by
  intro id server
  obtain ⟨start, host, hhost, rfl⟩ := exists_clientCommand h
  have hfits : config.serverBasePort + server % 2 ^ portBits < 2 ^ portBits := by
    obtain ⟨id, hid, -⟩ := bind_eq_ok.mp h
    rcases clientCommand_cases hservers (inWord_eq_ok.mp hid).1 master with
      ⟨-, -, hfits⟩ | ⟨hbroken, -⟩
    · exact hfits
    · rw [hbroken] at h
      cases h
  constructor
  · rintro ⟨host', -, hsuffix⟩
    rw [connection_eq_address] at hsuffix
    rwa [port_eq_of_address hsuffix]
  · intro hport
    have hmod : server % 2 ^ portBits = server := Nat.mod_eq_of_lt (by omega)
    refine ⟨host, hhost, ?_⟩
    rw [connection_eq_address, hmod, String.toList_append]
    exact List.suffix_append _ _

theorem addressedTo_launch_iff (hvalid : config.validate = .ok ()) (hpoint : point ∈ config.points)
    {launches : List (Machine × String)}
    (h : config.clientCommands (Machines.ofConfig config).clients point = .ok launches) {i : ℕ}
    (hi : i < launches.length) :
    let id := i * config.sweep.clientsPerMachine + 1
    let server := id % config.servers.length
    config.AddressedTo id server launches[i].2 ↔
      config.serverBasePort + server < 2 ^ portBits := by
  obtain ⟨master, hcommand⟩ := exists_clientCommand_eq_ok h hi
  have hiff := addressedTo_iff (validate_servers hvalid) hcommand
  rwa [clientsPerMachine_of_mem_points hpoint] at hiff

/-- The launch of a point succeeds or breaks down as the ports of the servers say, their numbers
taken with sixteen bits. -/
theorem launch_cases (hvalid : config.validate = .ok ()) (hpoint : point ∈ config.points) :
    let server i := (i * config.sweep.clientsPerMachine + 1) % config.servers.length
    let port i := config.serverBasePort + server i % 2 ^ portBits
    let launched := config.clientCommands (Machines.ofConfig config).clients point
    (∃ launches, launched = .ok launches ∧ launches.length = config.clients.length ∧
        ∀ i < config.clients.length, port i < 2 ^ portBits) ∨
      launched = .error .broken ∧ ∃ i < config.clients.length, 2 ^ portBits ≤ port i := by
  intro server port launched
  have hids (index : ℕ) :=
    clientId_lt_of_mem_points (validate_clientsPerMachine hvalid) hpoint (i := index)
  have hcases := clientCommands_cases (validate_servers hvalid) (validate_clients hvalid) hids
  rw [clientsPerMachine_of_mem_points hpoint] at hcases
  rcases hcases with ⟨launches, h, hfits⟩ | hbroken
  · exact Or.inl ⟨launches, h, (length_clientCommands h).trans (List.length_map _), hfits⟩
  · exact Or.inr hbroken

/-- All client processes are launched, each with the address of its server, exactly if the port of
each of these servers is a port. -/
theorem exists_addressed_iff (hvalid : config.validate = .ok ()) (hpoint : point ∈ config.points) :
    let server i := (i * config.sweep.clientsPerMachine + 1) % config.servers.length
    (∃ launches, config.clientCommands (Machines.ofConfig config).clients point = .ok launches ∧
        launches.length = config.clients.length ∧ ∀ i (hi : i < launches.length),
          config.AddressedTo (i * config.sweep.clientsPerMachine + 1) (server i) launches[i].2) ↔
      ∀ i < config.clients.length, config.serverBasePort + server i < 2 ^ portBits := by
  intro server
  constructor
  · rintro ⟨launches, h, hlength, hall⟩ i hi
    have hi : i < launches.length := hi.trans_eq hlength.symm
    exact (addressedTo_launch_iff hvalid hpoint h hi).mp (hall i hi)
  · intro hfits
    rcases launch_cases hvalid hpoint with ⟨launches, h, hlength, -⟩ | ⟨-, i, hi, hlarge⟩
    · refine ⟨launches, h, hlength, fun i hi => ?_⟩
      exact (addressedTo_launch_iff hvalid hpoint h hi).mpr (hfits i (hi.trans_eq hlength))
    · -- The number of a server is not greater when it is cut off.
      have hle := Nat.add_le_add_left (Nat.mod_le (server i) (2 ^ portBits)) config.serverBasePort
      exact absurd ((hlarge.trans hle).trans_lt (hfits i hi)) (lt_irrefl _)

theorem launch_broken_iff (hvalid : config.validate = .ok ()) (hpoint : point ∈ config.points) :
    config.clientCommands (Machines.ofConfig config).clients point = .error .broken ↔
      ∃ i < config.clients.length, 2 ^ portBits ≤ config.serverBasePort +
        (i * config.sweep.clientsPerMachine + 1) % config.servers.length % 2 ^ portBits := by
  rcases launch_cases hvalid hpoint with ⟨launches, h, -, hfits⟩ | ⟨hbroken, hlarge⟩
  · refine iff_of_false ?_ ?_
    · intro hbroken
      cases h.symm.trans hbroken
    · rintro ⟨i, hi, hlarge⟩
      exact absurd (hfits i hi) (not_lt.mpr hlarge)
  · exact iff_of_true hbroken hlarge

/-- The sweep of a valid configuration breaks down if a machine word does not hold the number of all
clients. Otherwise each client process has a server, and a number within the total. They are all
launched, each with the address of its server, exactly if the port of each of these servers is a
port. The launch breaks down exactly if the port of one of them, its number taken with sixteen bits,
is none. -/
theorem clientCommands_addressed_iff (hvalid : config.validate = .ok ()) :
    let servers := config.servers.length
    let processes := config.clients.length
    let total := processes * config.sweep.clientsPerMachine
    let id i := i * config.sweep.clientsPerMachine + 1
    (2 ^ wordBits ≤ total → config.tests = .error .broken) ∧
    (total < 2 ^ wordBits → config.tests = .ok (config.sweep.points total) ∧
      (∀ i, id i % servers < servers) ∧ (∀ i < processes, id i ≤ total) ∧
      ∀ point ∈ config.sweep.points total,
        let launched := config.clientCommands (Machines.ofConfig config).clients point
        ((∃ launches, launched = .ok launches ∧ launches.length = processes ∧
            ∀ i (hi : i < launches.length),
              config.AddressedTo (id i) (id i % servers) launches[i].2) ↔
          ∀ i < processes, config.serverBasePort + id i % servers < 2 ^ portBits) ∧
        (launched = .error .broken ↔ ∃ i < processes,
          2 ^ portBits ≤ config.serverBasePort + id i % servers % 2 ^ portBits)) := by
  intro servers processes total id
  rcases config.tests_cases with ⟨hfits, htests, hpoints⟩ | ⟨hlarge, hbroken, -⟩
  · refine ⟨fun hlarge => absurd hfits (not_lt.mpr hlarge), fun _ => ⟨?_, ?_, ?_, ?_⟩⟩
    · rw [htests, hpoints]
      rfl
    · exact fun i => Nat.mod_lt _ (validate_servers hvalid)
    · exact fun i => clientId_le_clientCount (validate_clientsPerMachine hvalid)
    · intro point hpoint
      have hpoint : point ∈ config.points := mem_points.mpr ⟨hfits, hpoint⟩
      exact ⟨exists_addressed_iff hvalid hpoint, launch_broken_iff hvalid hpoint⟩
  · exact ⟨fun _ => hbroken, fun hfits => absurd hfits (not_lt.mpr hlarge)⟩

/-- The second of two servers has no port if the first one has the last, and the clients of three
machines may be too many to be counted. -/
theorem clientCommands_lastPort :
    let last := { twoServers ["c"] 10 with serverBasePort := 65535 }
    let many := twoServers ["c", "d", "e"] (2 ^ 63)
    (last.validate = .ok () ∧ last.tests = .ok (last.sweep.points 10) ∧
      ∃ point ∈ last.sweep.points 10,
        last.clientCommands (Machines.ofConfig last).clients point = .error .broken) ∧
    many.validate = .ok () ∧ many.tests = .error .broken := by
  intro last many
  have hvalid : last.validate = .ok () := rfl
  have hmany : many.validate = .ok () := by decide
  have hpoints : last.sweep.points 10 ≠ [] := by decide +kernel
  obtain ⟨point, hpoint⟩ := List.exists_mem_of_ne_nil _ hpoints
  obtain ⟨htests, -, -, hall⟩ := (clientCommands_addressed_iff hvalid).2 (by decide)
  refine ⟨⟨hvalid, htests, point, hpoint, (hall point hpoint).2.mpr ⟨0, by decide, by decide⟩⟩,
    hmany, (clientCommands_addressed_iff hmany).1 (by decide)⟩

end ExperimentConfig

end ClusterBench
