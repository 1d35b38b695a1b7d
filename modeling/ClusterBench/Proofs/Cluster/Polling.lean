import ClusterBench.Cluster.Script
import ClusterBench.Proofs.Cluster.Errands
import ClusterBench.Proofs.Cluster.Frames

/-!
# Waiting for processes

Hosts are polled in turn until a poll does not find the process any more. Each poll that finds it is
followed by a pause and spends one unit of a budget that all hosts share; once the budget is spent,
no host is polled again and a warning says so.
-/

namespace ClusterBench

def Output.Finds (output : Output) : Prop := output.stdout ≠ "" ∧ output.stderr = ""

instance (output : Output) : Decidable output.Finds := by
  unfold Output.Finds
  infer_instance

def found (outputs : List Output) : ℕ := outputs.countP fun output => output.Finds

theorem found_cons_of_finds {output : Output} (h : output.Finds) (outputs : List Output) :
    found (output :: outputs) = found outputs + 1 := List.countP_cons_of_pos (by simpa using h)

theorem found_singleton_of_not_finds {output : Output} (h : ¬output.Finds) : found [output] = 0 :=
  List.countP_cons_of_neg (by simpa using h)

theorem found_append (outputs more : List Output) :
    found (outputs ++ more) = found outputs + found more := List.countP_append

/-- The polls of one host within a budget. -/
inductive Round : ℕ → List Output → Prop
  | spent : Round 0 []
  | last {budget : ℕ} {output : Output} (h : ¬output.Finds) : Round (budget + 1) [output]
  | again {budget : ℕ} {output : Output} {outputs : List Output} (h : output.Finds) :
      Round budget outputs → Round (budget + 1) (output :: outputs)

namespace Round

variable {budget : ℕ} {outputs : List Output}

theorem found_le (h : Round budget outputs) : found outputs ≤ budget := by
  induction h with
  | spent => exact le_rfl
  | last h => exact (found_singleton_of_not_finds h).trans_le (Nat.zero_le _)
  | again h _ ih =>
    rw [found_cons_of_finds h]
    exact Nat.succ_le_succ ih

theorem length_le (h : Round budget outputs) : outputs.length ≤ found outputs + 1 := by
  induction h with
  | spent => exact Nat.zero_le _
  | last h => exact Nat.le_add_left _ _
  | again h _ ih =>
    rw [found_cons_of_finds h, List.length_cons]
    exact Nat.succ_le_succ ih

/-- Only the last poll may not find the process. -/
theorem finds_of_mem_dropLast (h : Round budget outputs) :
    ∀ output ∈ outputs.dropLast, output.Finds := by
  induction h with
  | spent | last => exact List.forall_mem_nil _
  | @again _ output outputs h _ ih =>
    cases outputs with
    | nil => exact List.forall_mem_nil _
    | cons next outputs => exact List.forall_mem_cons.mpr ⟨h, ih⟩

/-- A round that leaves something of the budget is over: its last poll does not find the process. -/
theorem exists_last (h : Round budget outputs) (hleft : found outputs < budget) :
    ∃ output, outputs.getLast? = some output ∧ ¬output.Finds := by
  induction h with
  | spent => exact absurd hleft (Nat.lt_irrefl 0)
  | last h => exact ⟨_, rfl, h⟩
  | @again _ output outputs h _ ih =>
    rw [found_cons_of_finds h] at hleft
    obtain ⟨final, hfinal, hnot⟩ := ih (Nat.lt_of_succ_lt_succ hleft)
    refine ⟨final, ?_, hnot⟩
    rw [List.getLast?_cons, hfinal]
    rfl

/-- A round that spends the budget ends with a poll that finds the process. -/
theorem exists_last_finds (h : Round budget outputs) (hspent : found outputs = budget)
    (hpos : 0 < budget) : ∃ before output, outputs = before ++ [output] ∧ output.Finds := by
  induction h with
  | spent => exact absurd hpos (Nat.lt_irrefl 0)
  | last h =>
    rw [found_singleton_of_not_finds h] at hspent
    cases hspent
  | @again budget output outputs h hround ih =>
    rw [found_cons_of_finds h, Nat.succ_inj] at hspent
    rcases Nat.eq_zero_or_pos budget with rfl | hbudget
    · cases hround
      exact ⟨[], output, rfl, h⟩
    · obtain ⟨before, final, rfl, hfinds⟩ := ih hspent hbudget
      exact ⟨output :: before, final, rfl, hfinds⟩

end Round

inductive Rounds : ℕ → List (Machine × List Output) → Prop
  | nil {budget : ℕ} : Rounds budget []
  | cons {budget : ℕ} {m : Machine} {outputs : List Output}
      {rounds : List (Machine × List Output)} :
      Round budget outputs → Rounds (budget - found outputs) rounds →
        Rounds budget ((m, outputs) :: rounds)

def pollsOf (rounds : List (Machine × List Output)) : List Output := rounds.flatMap Prod.snd

theorem found_pollsOf_cons (m : Machine) (outputs : List Output)
    (rounds : List (Machine × List Output)) :
    found (pollsOf ((m, outputs) :: rounds)) = found outputs + found (pollsOf rounds) :=
  found_append _ _

namespace Rounds

variable {budget : ℕ} {rounds : List (Machine × List Output)}

theorem round_of_mem (h : Rounds budget rounds) :
    ∀ round ∈ rounds, ∃ left, Round left round.2 := by
  induction h with
  | nil => exact List.forall_mem_nil _
  | cons hround _ ih => exact List.forall_mem_cons.mpr ⟨⟨_, hround⟩, ih⟩

theorem found_le (h : Rounds budget rounds) : found (pollsOf rounds) ≤ budget := by
  induction h with
  | nil => exact Nat.zero_le _
  | cons hround _ ih =>
    have hle := hround.found_le
    rw [found_pollsOf_cons]
    omega

theorem length_le (h : Rounds budget rounds) :
    (pollsOf rounds).length ≤ found (pollsOf rounds) + rounds.length := by
  induction h with
  | nil => exact Nat.zero_le _
  | @cons _ m outputs rounds hround _ ih =>
    have hle := hround.length_le
    have hlength : (pollsOf ((m, outputs) :: rounds)).length =
        outputs.length + (pollsOf rounds).length := List.length_append
    rw [found_pollsOf_cons, hlength, List.length_cons]
    omega

theorem exists_last (h : Rounds budget rounds) (hleft : found (pollsOf rounds) < budget) :
    ∀ round ∈ rounds, ∃ output, round.2.getLast? = some output ∧ ¬output.Finds := by
  induction h with
  | nil => exact List.forall_mem_nil _
  | cons hround _ ih =>
    rw [found_pollsOf_cons] at hleft
    exact List.forall_mem_cons.mpr ⟨hround.exists_last (by omega), ih (by omega)⟩

theorem eq_nil_of_spent (h : Rounds 0 rounds) : ∀ round ∈ rounds, round.2 = [] := by
  generalize hbudget : 0 = budget at h
  induction h with
  | nil => exact List.forall_mem_nil _
  | cons hround _ ih =>
    subst hbudget
    cases hround
    exact List.forall_mem_cons.mpr ⟨rfl, ih rfl⟩

/-- The budget is spent on some host, and the hosts behind it are not polled. -/
theorem exists_final (h : Rounds budget rounds) (hspent : found (pollsOf rounds) = budget)
    (hpos : 0 < budget) : ∃ before m outputs output after,
      rounds = before ++ (m, outputs ++ [output]) :: after ∧ output.Finds ∧
        ∀ round ∈ after, round.2 = [] := by
  induction h with
  | nil => exact absurd hspent hpos.ne
  | @cons budget m outputs rounds hround hrounds ih =>
    rw [found_pollsOf_cons] at hspent
    rcases hround.found_le.eq_or_lt with heq | hlt
    · obtain ⟨before, output, rfl, hfinds⟩ := hround.exists_last_finds heq hpos
      rw [heq, Nat.sub_self] at hrounds
      exact ⟨[], m, before, output, rounds, rfl, hfinds, hrounds.eq_nil_of_spent⟩
    · obtain ⟨before, m', outputs', output, after, rfl, hfinds, hafter⟩ :=
        ih (by omega) (by omega)
      exact ⟨(m, outputs) :: before, m', outputs', output, after, rfl, hfinds, hafter⟩

end Rounds

variable {σ α : Type} [Shell σ]

def StartsAll (shell : σ) : Prop :=
  ∃ working : σ → Prop, working shell ∧ ∀ shell files line, working shell →
    ∃ reply shell' files', Shell.execute shell files line = some (reply, shell', files') ∧
      working shell'

theorem StartsAll.execute {shell : σ} (h : StartsAll shell) (files : Files) (line : String) :
    ∃ reply shell' files', Shell.execute shell files line = some (reply, shell', files') ∧
      StartsAll shell' := by
  obtain ⟨working, hworking, hnext⟩ := h
  obtain ⟨reply, shell', files', hexecute, hworking'⟩ := hnext shell files line hworking
  exact ⟨reply, shell', files', hexecute, working, hworking', hnext⟩

theorem startsAll_script {script : Script} (h : script.working = true) : StartsAll script := by
  refine ⟨fun script => script.working = true, h, ?_⟩
  intro script files line h
  simp only [Shell.execute]
  rw [if_pos h]
  exact ⟨_, _, _, rfl, h⟩

theorem World.Path.startsAll {w w' : World σ} {events : List Event} (h : w.Path events w')
    (hstarts : StartsAll w.shell) : StartsAll w'.shell ∧ ∀ errand, .asked errand none ∉ events := by
  induction h with
  | refl w => exact ⟨hstarts, fun _ => List.not_mem_nil⟩
  | wait slept _ ih => exact ih hstarts
  | tell text _ ih | warn text _ ih =>
    obtain ⟨hstarts', hasked⟩ := ih hstarts
    exact ⟨hstarts', fun errand => by simpa using hasked errand⟩
  | @answer w _ _ errand _ _ _ hanswer _ ih =>
    obtain ⟨_, _, _, hexecute, hnext⟩ := hstarts.execute w.files errand.line
    rw [hanswer] at hexecute
    cases hexecute
    obtain ⟨hstarts', hasked⟩ := ih hnext
    exact ⟨hstarts', fun errand => by simpa using hasked errand⟩
  | @refuse w _ _ errand hrefuse _ _ =>
    obtain ⟨_, _, _, hexecute, -⟩ := hstarts.execute w.files errand.line
    rw [hrefuse] at hexecute
    cases hexecute

/-- A run that fails only where a command cannot be started, and that does not wait. -/
theorem exists_ok_of_startsAll {run : Run σ α} {post : Except Failure α → List Event → Prop}
    (h : Leaves (Run.attempt run) post)
    (hok : ∀ outcome events, post outcome events → (∀ errand, .asked errand none ∉ events) →
      outcome.isOk = true)
    (hslept : Keeps World.slept run) {w : World σ} (hstarts : StartsAll w.shell) :
    ∃ a w' events, run w = (.ok a, w') ∧ w.Path events w' ∧ post (.ok a) events ∧
      w'.slept = w.slept := by
  obtain ⟨events, hpath, hpost⟩ := h w (run w).1 (run w).2 rfl
  obtain ⟨a, ha⟩ := exists_eq_ok_of_isOk (hok _ _ hpost (hpath.startsAll hstarts).2)
  exact ⟨a, (run w).2, events, Prod.ext ha rfl, hpath, ha ▸ hpost, hslept w⟩

theorem exists_exec (m : Machine) (command : String) {w : World σ} (hstarts : StartsAll w.shell) :
    ∃ output w', m.exec command false w = (.ok output, w') ∧
      w.Path [.asked (.atHost m command false) (some output)] w' ∧ w'.slept = w.slept := by
  obtain ⟨output, w', events, hrun, hpath, rfl, hslept⟩ :=
    exists_ok_of_startsAll (leaves_attempt_exec m command false)
      (by
        rintro (f | output) _ rfl hasked
        · exact absurd List.mem_cons_self (hasked _)
        · rfl)
      (unaffected_slept.keeps_exec m command false) hstarts
  exact ⟨output, w', hrun, hpath, hslept⟩

def pollEvents (m : Machine) (command : String) (output : Output) : List Event :=
  .asked (.atHost m command false) (some output) ::
    if output.stderr.isEmpty then [] else [.warned s!"[{m.host}] {output.stderr}"]

def roundEvents (command : String) (round : Machine × List Output) : List Event :=
  .told s!"waiting at {round.1.host}: {command}" :: round.2.flatMap (pollEvents round.1 command)

section Poll

variable (m : Machine) (command : String) {w w₁ w' : World σ} {output : Output} {budget n : ℕ}

/-- A poll that finds the process is followed by a pause and by more polls. -/
theorem poll_succ_of_finds (hexec : m.exec command false w = (.ok output, w₁))
    (hfinds : output.Finds)
    (hmore : m.poll command budget { w₁ with slept := w₁.slept + 2 } = (.ok n, w')) :
    m.poll command (budget + 1) w = (.ok (n + 1), w') := by
  obtain ⟨hstdout, hstderr⟩ := hfinds
  have hagain : m.poll command (budget + 1) w =
      (do return 1 + (← m.poll command budget) : Run σ ℕ) { w₁ with slept := w₁.slept + 2 } := by
    rw [Machine.poll, bind_apply, hexec]
    dsimp only
    rw [if_neg (by simp [hstderr]), if_neg (by simpa using hstdout), bind_apply]
    rfl
  rw [hagain, bind_apply, hmore, Nat.add_comm]
  rfl

/-- Another poll is the last one; an error is logged. -/
theorem poll_succ_of_not_finds (hexec : m.exec command false w = (.ok output, w₁))
    (hpath : w.Path [.asked (.atHost m command false) (some output)] w₁) (hnot : ¬output.Finds) :
    ∃ w', m.poll command (budget + 1) w = (.ok 0, w') ∧ w.Path (pollEvents m command output) w' ∧
      w'.slept = w₁.slept := by
  rw [Machine.poll, bind_apply, hexec]
  dsimp only
  by_cases hstderr : output.stderr = ""
  · have hstdout : output.stdout = "" := by
      by_contra hstdout
      exact hnot ⟨hstdout, hstderr⟩
    rw [if_neg (by simp [hstderr]), if_pos (by simp [hstdout])]
    refine ⟨w₁, rfl, ?_, rfl⟩
    rwa [pollEvents, if_pos (by simp [hstderr])]
  · rw [if_pos (by simpa using hstderr)]
    refine ⟨_, rfl, ?_, rfl⟩
    rw [pollEvents, if_neg (by simpa using hstderr)]
    exact hpath.trans ((World.Path.refl _).warn _)

/-- The polls of a host are a round, with a pause of two seconds for each one that finds the
process. -/
theorem exists_poll (budget : ℕ) (hstarts : StartsAll w.shell) :
    ∃ outputs w', m.poll command budget w = (.ok (found outputs), w') ∧ Round budget outputs ∧
      w.Path (outputs.flatMap (pollEvents m command)) w' ∧
        w'.slept = w.slept + 2 * found outputs := by
  induction budget generalizing w with
  | zero => exact ⟨[], w, rfl, .spent, .refl w, rfl⟩
  | succ budget ih =>
    obtain ⟨output, w₁, hexec, hpath, hslept⟩ := exists_exec m command hstarts
    by_cases hfinds : output.Finds
    · -- The poll leaves one unit less to the ones behind it.
      obtain ⟨outputs, w', hmore, hround, hpath', hslept'⟩ :=
        ih (w := { w₁ with slept := w₁.slept + 2 }) (hpath.startsAll hstarts).1
      have hevents : pollEvents m command output =
          [.asked (.atHost m command false) (some output)] := by
        rw [pollEvents, if_pos (by simp [hfinds.2])]
      refine ⟨output :: outputs, w', ?_, .again hfinds hround, ?_, ?_⟩
      · rw [found_cons_of_finds hfinds]
        exact poll_succ_of_finds m command hexec hfinds hmore
      · rw [List.flatMap_cons, hevents]
        exact hpath.trans (hpath'.wait _)
      · rw [hslept', hslept, found_cons_of_finds hfinds]
        ring
    · obtain ⟨w', hrun, hpath', hslept'⟩ := poll_succ_of_not_finds m command hexec hpath hfinds
      have hnone := found_singleton_of_not_finds hfinds
      refine ⟨[output], w', ?_, .last hfinds, ?_, ?_⟩
      · rw [hnone]
        exact hrun
      · rw [List.flatMap_singleton]
        exact hpath'
      · rw [hnone, hslept', hslept]
        rfl

end Poll

/-- The polls of machines in turn are rounds. -/
theorem exists_pollAll (command : String) (machines : List Machine) (budget : ℕ) {w : World σ}
    (hstarts : StartsAll w.shell) : ∃ rounds w',
      Machine.pollAll command machines budget w = (.ok (found (pollsOf rounds)), w') ∧
        rounds.map Prod.fst = machines ∧ Rounds budget rounds ∧
        w.Path (rounds.flatMap (roundEvents command)) w' ∧
          w'.slept = w.slept + 2 * found (pollsOf rounds) := by
  induction machines generalizing budget w with
  | nil => exact ⟨[], w, rfl, rfl, .nil, .refl w, rfl⟩
  | cons m machines ih =>
    obtain ⟨outputs, w₁, hpoll, hround, hpath, hslept⟩ :=
      exists_poll m command budget (w := (Run.info s!"waiting at {m.host}: {command}" w).2) hstarts
    obtain ⟨rounds, w₂, hrest, hmachines, hrounds, hpath', hslept'⟩ :=
      ih (budget - found outputs) (hpath.startsAll hstarts).1
    refine ⟨(m, outputs) :: rounds, w₂, ?_, ?_, .cons hround hrounds, ?_, ?_⟩
    · have hrun : Machine.pollAll command (m :: machines) budget w = (do
          let spent ← m.poll command budget
          return spent + (← Machine.pollAll command machines (budget - spent)) : Run σ ℕ)
            (Run.info s!"waiting at {m.host}: {command}" w).2 := rfl
      rw [hrun, bind_apply, hpoll]
      dsimp only
      rw [bind_apply, hrest, found_pollsOf_cons]
      rfl
    · rw [List.map_cons, hmachines]
    · exact (hpath.tell _).trans hpath'
    · rw [hslept', hslept, found_pollsOf_cons, Nat.mul_add, Nat.add_assoc]
      rfl

/-- A warning names a host in front. -/
def Event.NamesHost : Event → Prop
  | .warned text => ∃ host message : String, text = s!"[{host}] {message}"
  | _ => True

theorem namesHost_asks (errand : α → Errand) (answers : List (α × Option Output)) :
    ∀ event ∈ asks errand answers, event.NamesHost := by
  unfold asks
  rw [List.forall_mem_map]
  exact fun _ _ => trivial

theorem namesHost_unless (p : Prop) [Decidable p] {event : Event} (h : event.NamesHost) :
    ∀ logged ∈ if p then [] else [event], logged.NamesHost := by
  split_ifs
  · exact List.forall_mem_nil _
  · exact List.forall_mem_singleton.mpr h

theorem namesHost_outputEvents (m : Machine) (output : Output) :
    ∀ event ∈ outputEvents m output, event.NamesHost :=
  List.forall_mem_append.mpr
    ⟨namesHost_unless _ trivial, namesHost_unless _ ⟨m.host, output.stderr, rfl⟩⟩

theorem namesHost_reports (machine : α → Machine) (answers : List (α × Option Output)) :
    ∀ event ∈ reports machine answers, event.NamesHost := by
  induction answers with
  | nil => exact List.forall_mem_nil _
  | cons first answers ih =>
    obtain ⟨a, first⟩ := first
    cases first with
    | none => exact List.forall_mem_nil _
    | some output => exact List.forall_mem_append.mpr ⟨namesHost_outputEvents _ output, ih⟩

theorem namesHost_pollEvents (m : Machine) (command : String) (output : Output) :
    ∀ event ∈ pollEvents m command output, event.NamesHost := by
  unfold pollEvents
  rw [List.forall_mem_cons]
  exact ⟨trivial, namesHost_unless _ ⟨m.host, output.stderr, rfl⟩⟩

theorem namesHost_roundEvents (command : String) (round : Machine × List Output) :
    ∀ event ∈ roundEvents command round, event.NamesHost := by
  unfold roundEvents
  rw [List.forall_mem_cons]
  refine ⟨trivial, ?_⟩
  intro event hevent
  obtain ⟨output, -, hevent⟩ := List.mem_flatMap.mp hevent
  exact namesHost_pollEvents round.1 command output event hevent

theorem isSome_of_asks {errand : α → Errand} {answers : List (α × Option Output)}
    (h : ∀ other, .asked other none ∉ asks errand answers) :
    ∀ answer ∈ answers, answer.2.isSome := by
  rintro ⟨a, answer⟩ hmem
  cases answer with
  | some output => rfl
  | none => exact absurd (List.mem_map.mpr ⟨(a, none), hmem, rfl⟩) (h (errand a))

/-- A command is handed over once for each machine. -/
theorem exists_execAll (machines : List Machine) (command : String) (asRoot : Bool) {w : World σ}
    (hstarts : StartsAll w.shell) : ∃ results w' events,
      Machine.execAll machines command asRoot w = (.ok results, w') ∧ w.Path events w' ∧
        errandsOf events = (machines.map fun m => .atHost m command asRoot) ∧
        (∀ event ∈ events, event.NamesHost) ∧ w'.slept = w.slept := by
  obtain ⟨results, w', events, hrun, hpath, ⟨answers, rfl, rfl, -⟩, hslept⟩ :=
    exists_ok_of_startsAll (leaves_execAll machines command asRoot)
      (by
        rintro outcome _ ⟨answers, -, rfl, hanswered⟩ hasked
        apply hanswered.isOk_iff.mpr
        apply isSome_of_asks
        exact fun other hmem => hasked other (List.mem_append_left _ hmem))
      (unaffected_slept.keeps_execAll machines command asRoot) hstarts
  refine ⟨results, w', _, hrun, hpath, ?_, ?_, hslept⟩
  · rw [errandsOf_append, errandsOf_asks, errandsOf_eq_nil (asked_notMem_reports _ _),
      List.append_nil]
  · exact List.forall_mem_append.mpr ⟨namesHost_asks _ _, namesHost_reports _ _⟩

def gaveUp (process : String) (limit : ℕ) : Event :=
  .warned s!"stopped waiting for {process} after {limit} checks"

theorem not_namesHost_gaveUp (process : String) (limit : ℕ) :
    ¬(gaveUp process limit).NamesHost := by
  rintro ⟨host, message, heq⟩
  -- The first characters differ.
  have hhead := congrArg (fun text => text.toList.head?) heq
  have hstopped : (toString "stopped waiting for ").toList.head? = some 's' := by decide
  have hbracket : (toString "[").toList.head? = some '[' := by decide
  simp [String.toList_append, hstopped, hbracket] at hhead

theorem gaveUp_mem_append_iff {process : String} {limit : ℕ} {events : List Event}
    (hevents : ∀ event ∈ events, event.NamesHost) (p : Prop) [Decidable p] :
    gaveUp process limit ∈ events ++ (if p then [gaveUp process limit] else []) ↔ p := by
  have hnot : gaveUp process limit ∉ events :=
    fun hmem => not_namesHost_gaveUp process limit (hevents _ hmem)
  rw [List.mem_append, or_iff_right hnot]
  split_ifs with hp
  · exact iff_of_true List.mem_cons_self hp
  · exact iff_of_false List.not_mem_nil hp

namespace Machines

variable (ms : Machines)

/-- The polls of the machines, and a warning if the budget is spent. -/
theorem exists_polls (command process : String) (machines : List Machine) (limit : ℕ) {w : World σ}
    (hstarts : StartsAll w.shell) : ∃ w' rounds,
      (do
        let checks ← Machine.pollAll command machines limit
        if limit ≤ checks then
          Run.warn s!"stopped waiting for {process} after {limit} checks" : Run σ Unit) w =
            (.ok (), w') ∧
        w.Path (rounds.flatMap (roundEvents command) ++
          if limit ≤ found (pollsOf rounds) then [gaveUp process limit] else []) w' ∧
        rounds.map Prod.fst = machines ∧ Rounds limit rounds ∧
          w'.slept = w.slept + 2 * found (pollsOf rounds) := by
  obtain ⟨rounds, w', hrun, hmachines, hrounds, hpath, hslept⟩ :=
    exists_pollAll command machines limit hstarts
  rw [bind_apply, hrun]
  dsimp only
  by_cases hspent : limit ≤ found (pollsOf rounds)
  · rw [if_pos hspent]
    refine ⟨_, rounds, rfl, ?_, hmachines, hrounds, hslept⟩
    rw [if_pos hspent]
    exact hpath.trans ((World.Path.refl _).warn _)
  · rw [if_neg hspent]
    refine ⟨w', rounds, rfl, ?_, hmachines, hrounds, hslept⟩
    rwa [if_neg hspent, List.append_nil]

/-- Waiting kills the processes if asked to, then it polls the machines. -/
theorem exists_waitForProcess (hosts : HostSelection) (process : String) (limit : ℕ) (kill : Bool)
    {w : World σ} (hstarts : StartsAll w.shell) : ∃ w' killed rounds,
      ms.waitForProcess hosts process limit kill w = (.ok (), w') ∧
        w.Path (killed ++ (rounds.flatMap (roundEvents (ms.testbed.pollCommand process)) ++
          if limit ≤ found (pollsOf rounds) then [gaveUp process limit] else [])) w' ∧
        errandsOf killed = (if kill then
          (ms.select hosts).map fun m => .atHost m s!"pkill -f {process}" false else []) ∧
        (∀ event ∈ killed, event.NamesHost) ∧ rounds.map Prod.fst = ms.select hosts ∧
        Rounds limit rounds ∧ w'.slept = w.slept + 2 * found (pollsOf rounds) := by
  cases kill with
  | false =>
    obtain ⟨w', rounds, hrun, hpath, hpolls⟩ :=
      exists_polls (ms.testbed.pollCommand process) process (ms.select hosts) limit hstarts
    exact ⟨w', [], rounds, hrun, hpath, rfl, List.forall_mem_nil _, hpolls⟩
  | true =>
    obtain ⟨_, w₁, killed, hkill, hkilled, herrands, hnames, hslept⟩ :=
      exists_execAll (ms.select hosts) s!"pkill -f {process}" false hstarts
    obtain ⟨w', rounds, hrun, hpath, hmachines, hrounds, hslept'⟩ :=
      exists_polls (ms.testbed.pollCommand process) process (ms.select hosts) limit
        (hkilled.startsAll hstarts).1
    refine ⟨w', killed, rounds, ?_, hkilled.trans hpath, herrands, hnames, hmachines, hrounds, ?_⟩
    · unfold waitForProcess
      dsimp only
      rw [if_pos rfl, bind_apply, hkill]
      exact hrun
    · rw [hslept', hslept]

/-- Polling is bounded, the budget is shared, and the warning tells whether it was spent. -/
theorem waitForProcess_polls (hosts : HostSelection) (process : String) (limit : ℕ) (kill : Bool)
    {w : World σ} (hstarts : StartsAll w.shell) : ∃ w' killed rounds events,
      ms.waitForProcess hosts process limit kill w = (.ok (), w') ∧ w.Path events w' ∧
      events = killed ++ (rounds.flatMap (roundEvents (ms.testbed.pollCommand process)) ++
        if limit ≤ found (pollsOf rounds) then [gaveUp process limit] else []) ∧
      errandsOf killed = (if kill then
        (ms.select hosts).map fun m => .atHost m s!"pkill -f {process}" false else []) ∧
      rounds.map Prod.fst = ms.select hosts ∧
      w'.slept = w.slept + 2 * found (pollsOf rounds) ∧ found (pollsOf rounds) ≤ limit ∧
      (pollsOf rounds).length ≤ found (pollsOf rounds) + (ms.select hosts).length ∧
      (∀ round ∈ rounds, ∀ output ∈ round.2.dropLast, output.Finds) ∧
      (gaveUp process limit ∉ events →
        ∀ round ∈ rounds, ∃ output, round.2.getLast? = some output ∧ ¬output.Finds) ∧
      (gaveUp process limit ∈ events → 0 < limit → found (pollsOf rounds) = limit ∧
        ∃ before m outputs output after, rounds = before ++ (m, outputs ++ [output]) :: after ∧
          output.Finds ∧ ∀ round ∈ after, round.2 = []) := by
  obtain ⟨w', killed, rounds, hrun, hpath, hkilled, hnames, hmachines, hrounds, hslept⟩ :=
    ms.exists_waitForProcess hosts process limit kill hstarts
  have hwarned : gaveUp process limit ∈
      killed ++ (rounds.flatMap (roundEvents (ms.testbed.pollCommand process)) ++
        if limit ≤ found (pollsOf rounds) then [gaveUp process limit] else []) ↔
        limit ≤ found (pollsOf rounds) := by
    rw [← List.append_assoc]
    apply gaveUp_mem_append_iff
    rw [List.forall_mem_append, List.forall_mem_flatMap]
    exact ⟨hnames, fun round _ => namesHost_roundEvents _ round⟩
  refine ⟨w', killed, rounds, _, hrun, hpath, rfl, hkilled, hmachines, hslept, hrounds.found_le,
    ?_, ?_, ?_, ?_⟩
  · rw [← hmachines, List.length_map]
    exact hrounds.length_le
  · intro round hround
    obtain ⟨_, h⟩ := hrounds.round_of_mem round hround
    exact h.finds_of_mem_dropLast
  · intro hnot
    exact hrounds.exists_last (lt_of_not_ge fun hle => hnot (hwarned.mpr hle))
  · intro hmem hpos
    have hlimit := hrounds.found_le.antisymm (hwarned.mp hmem)
    exact ⟨hlimit, hrounds.exists_final hlimit hpos⟩

/-- The process ends after two polls, just when a budget of two is spent: the host that is selected
again and the one behind it are not polled, and the wait is given up. -/
theorem waitForProcess_polls_spent :
    let ms : Machines := ⟨.localhost, [], [.here "a", .here "b"], []⟩
    let shell : Script := ⟨[⟨"pgrep", ⟨[0x37], []⟩, some 2⟩], true⟩
    let w : World Script := .start shell .empty 1
    StartsAll shell ∧ ∃ w' rounds events,
      ms.waitForProcess (.list ["a", "b", "a"]) "java" 2 true w = (.ok (), w') ∧
        w.Path events w' ∧ rounds.map Prod.fst = [.here "a", .here "b", .here "a"] ∧
        w'.slept = 4 ∧ found (pollsOf rounds) = 2 ∧ gaveUp "java" 2 ∈ events ∧
        ∃ before m outputs output after, rounds = before ++ (m, outputs ++ [output]) :: after ∧
          output.Finds ∧ ∀ round ∈ after, round.2 = [] := by
  intro ms shell w
  have hstarts : StartsAll shell := startsAll_script rfl
  obtain ⟨w', killed, rounds, events, hrun, hpath, hevents, -, hmachines, hslept, -, -, -, -,
      hspent⟩ := ms.waitForProcess_polls (.list ["a", "b", "a"]) "java" 2 true (w := w) hstarts
  have hseconds : w'.slept = 4 := by
    have hsecond : (ms.waitForProcess (.list ["a", "b", "a"]) "java" 2 true w).2.slept = 4 := by
      decide +kernel
    rwa [hrun] at hsecond
  have hfound : found (pollsOf rounds) = 2 := by
    have hstart : w.slept = 0 := rfl
    omega
  have hgaveUp : gaveUp "java" 2 ∈ events := by
    rw [hevents, if_pos hfound.ge]
    simp
  have hselect : ms.select (.list ["a", "b", "a"]) = [.here "a", .here "b", .here "a"] := by
    decide +kernel
  exact ⟨hstarts, w', rounds, events, hrun, hpath, hmachines.trans hselect, hseconds, hfound,
    hgaveUp, (hspent hgaveUp Nat.two_pos).2⟩

end Machines

end ClusterBench
