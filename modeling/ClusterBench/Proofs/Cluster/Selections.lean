import ClusterBench.Proofs.Cluster.CommandLines
import ClusterBench.Proofs.FirstOccurrences

/-!
# Selections of hosts

Several processes may run at one host, and a host may be in several groups. A selection names each
host once, and a command for a selection is handed over once for each of its hosts, so that nothing
is killed or wiped at one host twice at the same time.
-/

namespace ClusterBench

variable {config : ExperimentConfig} {machines : List Machine} {m : Machine} {hosts : List String}

namespace Machine

@[simp] theorem host_ofHost (testbed : Testbed) (host username : String)
    (keyFile : Option String) : (ofHost testbed host username keyFile).host = host := by
  cases testbed <;> rfl

theorem distinct_eq (machines : List Machine) :
    distinct machines = firstOccurrences host machines :=
  foldl_eq_firstOccurrences (fun _ _ => beq_iff_eq) machines

end Machine

/-- In a configured experiment a host has one machine, whatever it runs. -/
def ExperimentConfig.machine (config : ExperimentConfig) (host : String) : Machine :=
  .ofHost config.testbed host config.username config.keyFile

@[simp] theorem ExperimentConfig.host_machine (config : ExperimentConfig) (host : String) :
    (config.machine host).host = host := Machine.host_ofHost ..

namespace Machines

/-- Machines for some hosts: each host once, in the order in which they come up. -/
structure Lists (config : ExperimentConfig) (hosts : List String) (machines : List Machine) :
    Prop where
  order : machines = (firstOccurrences id hosts).map config.machine
  once : (machines.map Machine.host).Nodup
  covers : ∀ host, host ∈ machines.map Machine.host ↔ host ∈ hosts

theorem lists_distinct (config : ExperimentConfig) (hosts : List String) :
    Lists config hosts (Machine.distinct (hosts.map config.machine)) := by
  have hhosts : (hosts.map config.machine).map Machine.host = hosts := by
    simp [List.map_map, Function.comp_def]
  rw [Machine.distinct_eq]
  refine ⟨?_, nodup_map_firstOccurrences _ _, fun host => ?_⟩
  · rw [firstOccurrences_map]
    simp only [ExperimentConfig.host_machine]
    rfl
  · rw [mem_map_firstOccurrences, hhosts]

theorem lists_all (config : ExperimentConfig) :
    Lists config (config.servers ++ config.clients ++ config.backends) (ofConfig config).all := by
  have hlists := lists_distinct config (config.servers ++ config.clients ++ config.backends)
  rwa [List.map_append, List.map_append] at hlists

theorem Lists.mem_iff (h : Lists config hosts machines) :
    m ∈ machines ↔ ∃ host ∈ hosts, config.machine host = m := by
  rw [h.order, List.mem_map]
  simp only [mem_firstOccurrences_id]

theorem Lists.subset {hosts' : List String} {machines' : List Machine}
    (h : Lists config hosts machines) (h' : Lists config hosts' machines')
    (hsubset : hosts ⊆ hosts') : machines ⊆ machines' := by
  intro m hm
  obtain ⟨host, hhost, rfl⟩ := h.mem_iff.mp hm
  exact h'.mem_iff.mpr ⟨host, hsubset hhost, rfl⟩

theorem Lists.filter_host (h : Lists config hosts machines) (name : String) :
    machines.filter (·.host == name) = if name ∈ hosts then [config.machine name] else [] := by
  have hcount : (firstOccurrences id hosts).count name = if name ∈ hosts then 1 else 0 := by
    rw [(nodup_firstOccurrences_id hosts).count, if_congr mem_firstOccurrences_id rfl rfl]
  have hname : (fun m : Machine => m.host == name) ∘ config.machine = (· == name) := by
    funext host
    rw [Function.comp_apply, ExperimentConfig.host_machine]
  rw [h.order, List.filter_map, hname, List.filter_beq, hcount]
  split_ifs <;> rfl

theorem Lists.find?_host (h : Lists config hosts machines) (name : String) :
    machines.find? (·.host == name) =
      if name ∈ hosts then some (config.machine name) else none := by
  rw [← List.head?_filter, h.filter_host]
  split_ifs <;> rfl

theorem Lists.filterMap_find? (h : Lists config hosts machines) (names : List String) :
    (names.filterMap fun name => machines.find? (·.host == name)) =
      (names.filter (· ∈ hosts)).map config.machine := by
  induction names with
  | nil => rfl
  | cons name names ih =>
    rw [List.filterMap_cons, h.find?_host name, ih, List.filter_cons]
    by_cases hname : name ∈ hosts <;> simp [hname]

/-- A command is handed over once for each machine, in order, and the result is each machine with
what its own command has written, unless one could not be started. -/
theorem exists_answers_execAll {σ : Type} [Shell σ] (machines : List Machine) (command : String)
    (asRoot : Bool) (w : World σ) : ∃ (answers : List (Machine × Option Output))
      (result : Except Failure (List (Machine × Output))) (w' : World σ),
      Machine.execAll machines command asRoot w = (result, w') ∧
        answers.map Prod.fst = machines ∧
        w.Path (asks (fun m => .atHost m command asRoot) answers ++ reports id answers) w' ∧
        w'.commands = w.commands ++ machines.map (·.commandLine command asRoot) ∧
        result.toOption = answers.mapM fun answer => answer.2.map (answer.1, ·) := by
  obtain ⟨_, hpath, answers, hanswers, rfl, hanswered⟩ :=
    leaves_execAll machines command asRoot w _ _ rfl
  refine ⟨answers, _, _, rfl, hanswers, hpath, ?_, hanswered.toOption_eq⟩
  rw [commands_eq_append hpath.log_eq, command?_logLines, errandsOf_append, errandsOf_asks,
    errandsOf_eq_nil (asked_notMem_reports _ _), List.append_nil, hanswers, List.map_map]
  rfl

/-- All hosts are the ones of the servers, the clients and the backends, in this order. A group has
its own ones. A selection by name has the host of this name, if there is one, and a list of names
has the hosts of these names in its order. A command for a selection is handed over once for each
of its hosts, in order, and the result is each host with what its own command has written, unless
one could not be started. -/
theorem select_exec (config : ExperimentConfig) :
    let ms := ofConfig config
    let hosts := config.servers ++ config.clients ++ config.backends
    Lists config hosts (ms.select .all) ∧
      (∀ group ∈ [(HostSelection.servers, config.servers), (.clients, config.clients),
        (.backends, config.backends)], Lists config group.2 (ms.select group.1) ∧
          ms.select group.1 ⊆ ms.select .all) ∧
      (∀ name, ms.select (.host name) = if name ∈ hosts then [config.machine name] else []) ∧
      (∀ names, ms.select (.list names) = (names.filter (· ∈ hosts)).map config.machine) ∧
      ∀ (σ : Type) [Shell σ] (selection : HostSelection) (command : String) (asRoot : Bool)
        (w : World σ), ∃ (answers : List (Machine × Option Output))
          (result : Except Failure (List (Machine × Output))) (w' : World σ),
        ms.exec selection command asRoot w = (result, w') ∧
          answers.map Prod.fst = ms.select selection ∧
          w.Path (asks (fun m => .atHost m command asRoot) answers ++ reports id answers) w' ∧
          w'.commands =
            w.commands ++ (ms.select selection).map (·.commandLine command asRoot) ∧
          result.toOption = answers.mapM fun answer => answer.2.map (answer.1, ·) := by
  intro ms hosts
  have hall : Lists config hosts (ms.select .all) := lists_all config
  refine ⟨hall, ?_, hall.filter_host, hall.filterMap_find?, ?_⟩
  · have hgroup {names : List String} {selection : HostSelection} (hnames : names ⊆ hosts)
        (hselect : ms.select selection = Machine.distinct (names.map config.machine)) :
        Lists config names (ms.select selection) ∧
          ms.select selection ⊆ ms.select .all := by
      have hlists := lists_distinct config names
      rw [← hselect] at hlists
      exact ⟨hlists, hlists.subset hall hnames⟩
    simp only [List.forall_mem_cons, List.not_mem_nil, false_implies, implies_true, and_true]
    refine ⟨hgroup ?_ rfl, hgroup ?_ rfl, hgroup ?_ rfl⟩
    · exact fun _ h => List.mem_append_left _ (List.mem_append_left _ h)
    · exact fun _ h => List.mem_append_left _ (List.mem_append_right _ h)
    · exact fun _ h => List.mem_append_right _ h
  · intro σ _ selection command asRoot w
    exact exists_answers_execAll (ms.select selection) command asRoot w

end Machines

end ClusterBench
