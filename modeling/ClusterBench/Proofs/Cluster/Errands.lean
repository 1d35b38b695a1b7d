import ClusterBench.Proofs.Cluster.Events

/-!
# What is reported about commands

A plan says which commands a run hands to the shell, and for which hosts. Commands on machines are
reported: when such a run succeeds, all of them were started, and whatever a command at a host has
written as an error is in a warning that names the host. Copies from machines are the exception, see
`leaves_copyFromAll`.
-/

namespace ClusterBench

open scoped Computability

variable {σ α β : Type} [Shell σ]

/-- Every command was started, and a warning names what a command at a host has written as an
error. -/
structure Reported (events : List Event) : Prop where
  started : ∀ errand, .asked errand none ∉ events
  warned : ∀ errand output host, .asked errand (some output) ∈ events →
    errand.host? = some host → output.stderr ≠ "" →
      .warned s!"[{host}] {output.stderr}" ∈ events

namespace Reported

variable {events more : List Event}

theorem of_logged (h : ∀ errand answer, .asked errand answer ∉ events) : Reported events where
  started errand := h errand none
  warned errand output _ hmem := absurd hmem (h errand (some output))

theorem append (h : Reported events) (h' : Reported more) : Reported (events ++ more) where
  started errand hmem := by
    rcases List.mem_append.mp hmem with hmem | hmem
    · exact h.started errand hmem
    · exact h'.started errand hmem
  warned errand output host hmem hhost hne := by
    rcases List.mem_append.mp hmem with hmem | hmem
    · exact List.mem_append_left _ (h.warned errand output host hmem hhost hne)
    · exact List.mem_append_right _ (h'.warned errand output host hmem hhost hne)

/-- A command and what is logged about it. -/
theorem asked {errand : Errand} {output : Output} (h : Reported events)
    (hwarned : ∀ host, errand.host? = some host → output.stderr ≠ "" →
      .warned s!"[{host}] {output.stderr}" ∈ events) :
    Reported (.asked errand (some output) :: events) where
  started other hmem := by
    rcases List.mem_cons.mp hmem with heq | hmem
    · cases heq
    · exact h.started other hmem
  warned other output' host hmem hhost hne := by
    apply List.mem_cons_of_mem
    rcases List.mem_cons.mp hmem with heq | hmem
    · cases heq
      exact hwarned host hhost hne
    · exact h.warned other output' host hmem hhost hne

theorem told (h : Reported events) (text : String) : Reported (.told text :: events) := by
  have hlogged : Reported [.told text] := of_logged (by simp)
  exact hlogged.append h

end Reported

theorem asked_notMem_outputEvents (m : Machine) (output : Output) (errand : Errand)
    (answer : Option Output) : .asked errand answer ∉ outputEvents m output := by
  unfold outputEvents
  split_ifs <;> simp

theorem warned_mem_outputEvents (m : Machine) {output : Output} (h : output.stderr ≠ "") :
    .warned s!"[{m.host}] {output.stderr}" ∈ outputEvents m output := by
  unfold outputEvents
  rw [if_neg (c := output.stderr.isEmpty = true) (by simpa using h)]
  exact List.mem_append_right _ List.mem_cons_self

theorem asked_notMem_reports (machine : α → Machine) (answers : List (α × Option Output))
    (errand : Errand) (answer : Option Output) :
    .asked errand answer ∉ reports machine answers := by
  induction answers with
  | nil => exact List.not_mem_nil
  | cons first answers ih =>
    obtain ⟨m, first⟩ := first
    cases first with
    | none => exact List.not_mem_nil
    | some output =>
      rw [reports, List.mem_append, not_or]
      exact ⟨asked_notMem_outputEvents _ output errand answer, ih⟩

theorem warned_mem_reports (machine : α → Machine) {answers : List (α × Option Output)}
    (h : ∀ answer ∈ answers, answer.2.isSome) {a : α} {output : Output}
    (hmem : (a, some output) ∈ answers) (hne : output.stderr ≠ "") :
    .warned s!"[{(machine a).host}] {output.stderr}" ∈ reports machine answers := by
  induction answers with
  | nil => exact absurd hmem List.not_mem_nil
  | cons first answers ih =>
    obtain ⟨b, first⟩ := first
    rw [List.forall_mem_cons] at h
    obtain ⟨hfirst, hrest⟩ := h
    obtain ⟨output', rfl⟩ := Option.isSome_iff_exists.mp hfirst
    rw [reports, List.mem_append]
    rcases List.mem_cons.mp hmem with heq | hmem
    · cases heq
      exact Or.inl (warned_mem_outputEvents _ hne)
    · exact Or.inr (ih hrest hmem)

theorem reported_reports {errand : α → Errand} {machine : α → Machine}
    (hhost : ∀ a, (errand a).host? = some (machine a).host)
    {answers : List (α × Option Output)} (h : ∀ answer ∈ answers, answer.2.isSome) :
    Reported (asks errand answers ++ reports machine answers) where
  started other hmem := by
    rcases List.mem_append.mp hmem with hmem | hmem
    · obtain ⟨answer, hanswer, heq⟩ := List.mem_map.mp hmem
      have hsome := h answer hanswer
      rw [(Event.asked.inj heq).2] at hsome
      cases hsome
    · exact asked_notMem_reports _ _ _ _ hmem
  warned other output host hmem hother hne := by
    rcases List.mem_append.mp hmem with hmem | hmem
    · obtain ⟨⟨a, answer⟩, hanswer, heq⟩ := List.mem_map.mp hmem
      obtain ⟨rfl, rfl⟩ := Event.asked.inj heq
      obtain rfl := Option.some.inj ((hhost a).symm.trans hother)
      exact List.mem_append_right _ (warned_mem_reports machine h hanswer hne)
    · exact absurd hmem (asked_notMem_reports _ _ _ _)

/-- A run that succeeds does the errands of a plan and reports about them. -/
def Follows (run : Run σ α) (plan : Language Errand) : Prop :=
  Leaves run fun _ events => errandsOf events ∈ plan ∧ Reported events

theorem errandsOf_append (events more : List Event) :
    errandsOf (events ++ more) = errandsOf events ++ errandsOf more := List.filterMap_append

theorem errandsOf_eq_nil {events : List Event}
    (h : ∀ errand answer, .asked errand answer ∉ events) : errandsOf events = [] := by
  apply List.filterMap_eq_nil_iff.mpr
  intro event hevent
  cases event with
  | asked errand answer => exact absurd hevent (h errand answer)
  | told text => rfl
  | warned text => rfl

theorem errandsOf_asks (errand : α → Errand) (answers : List (α × Option Output)) :
    errandsOf (asks errand answers) = (answers.map Prod.fst).map errand := by
  induction answers with
  | nil => rfl
  | cons answer answers ih => exact congrArg (errand answer.1 :: ·) ih

theorem prod_singletons (errand : α → Errand) (as : List α) :
    (as.map fun a => ({[errand a]} : Language Errand)).prod = {as.map errand} := by
  induction as with
  | nil => rfl
  | cons a as ih =>
    rw [List.map_cons, List.prod_cons, ih]
    exact Set.image2_singleton

namespace Follows

variable {run : Run σ α} {plan plan' : Language Errand}

theorem of_logged {post : α → List Event → Prop} (h : Leaves run post)
    (hpost : ∀ a events, post a events → ∀ errand answer, .asked errand answer ∉ events) :
    Follows run 1 := by
  apply h.mono
  intro a events hevents
  have hlogged := hpost a events hevents
  rw [errandsOf_eq_nil hlogged]
  exact ⟨Language.nil_mem_one, .of_logged hlogged⟩

theorem pure (a : α) : Follows (Pure.pure a : Run σ α) 1 :=
  of_logged (Leaves.pure a) (by rintro _ _ ⟨-, rfl⟩; simp)

theorem info (text : String) : Follows (Run.info text : Run σ Unit) 1 :=
  of_logged (leaves_info text) (by rintro _ _ rfl; simp)

theorem warn (text : String) : Follows (Run.warn text : Run σ Unit) 1 :=
  of_logged (leaves_warn text) (by rintro _ _ rfl; simp)

theorem bind {next : α → Run σ β} (h : Follows run plan) (h' : ∀ a, Follows (next a) plan') :
    Follows (run >>= next) (plan * plan') := by
  apply (Leaves.bind h h').mono
  rintro _ _ ⟨_, _, _, rfl, ⟨hbefore, hreported⟩, hafter, hreported'⟩
  rw [errandsOf_append]
  exact ⟨Language.append_mem_mul hbefore hafter, hreported.append hreported'⟩

/-- Behind something that hands over no command. -/
theorem after {next : α → Run σ β} (h : Follows run 1) (h' : ∀ a, Follows (next a) plan) :
    Follows (run >>= next) plan := by
  have hbind := h.bind h'
  rwa [one_mul] at hbind

/-- In front of something that hands over no command. -/
theorem before {next : α → Run σ β} (h : Follows run plan) (h' : ∀ a, Follows (next a) 1) :
    Follows (run >>= next) plan := by
  have hbind := h.bind h'
  rwa [mul_one] at hbind

theorem within (h : Follows run plan) (context : String) :
    Follows (Run.within context run) plan := Leaves.within h context

theorem sleep (seconds : ℕ) : Follows (Run.sleep seconds : Run σ Unit) 1 :=
  of_logged (leaves_sleep seconds) (by rintro _ _ rfl; simp)

theorem pause (seconds : ℕ) : Follows (Run.pause seconds : Run σ Unit) 1 := by
  unfold Run.pause
  split_ifs
  · exact (info _).after fun _ => sleep seconds
  · exact pure ()

theorem forM {f : α → Run σ Unit} {plans : α → Language Errand} (h : ∀ a, Follows (f a) (plans a))
    (as : List α) : Follows (as.forM f) (as.map plans).prod := by
  induction as with
  | nil => exact pure ()
  | cons a as ih =>
    rw [List.map_cons, List.prod_cons]
    exact (h a).bind fun _ => ih

end Follows

theorem follows_execEach (machine : α → Machine) (command : α → String) (as : List α)
    (asRoot : Bool) :
    Follows (Machine.execEach (as.map fun a => (machine a, [command a])) asRoot : Run σ _)
      {as.map fun a => .atHost (machine a) (command a) asRoot} := by
  apply (leaves_execEach machine command as asRoot).of_attempt.mono
  rintro _ _ ⟨answers, rfl, rfl, hanswered⟩
  refine ⟨?_, reported_reports (fun _ => rfl) (hanswered.isOk_iff.mp rfl)⟩
  rw [errandsOf_append, errandsOf_eq_nil (asked_notMem_reports _ _), List.append_nil,
    errandsOf_asks]
  exact Set.mem_singleton _

theorem follows_execAll (machines : List Machine) (command : String) (asRoot : Bool) :
    Follows (Machine.execAll machines command asRoot : Run σ _)
      {machines.map fun m => .atHost m command asRoot} :=
  (follows_execEach id (fun _ => command) machines asRoot).before fun _ => Follows.pure _

/-- A command whose output is logged right away. -/
theorem follows_exec_log (m : Machine) (command : String) :
    Follows (do m.logOutput (← m.exec command false) : Run σ Unit) {[.atHost m command false]} := by
  apply ((leaves_exec m command false).bind fun output => leaves_logOutput m output).mono
  rintro _ _ ⟨output, _, _, rfl, rfl, rfl⟩
  have hlogged := asked_notMem_outputEvents m output
  constructor
  · rw [errandsOf_append, errandsOf_eq_nil hlogged]
    exact Set.mem_singleton _
  · refine (Reported.of_logged hlogged).asked ?_
    rintro host ⟨⟩ hne
    exact warned_mem_outputEvents m hne

/-- An error ends the polls of a machine, and is logged. -/
theorem follows_poll (m : Machine) (command : String) (budget : ℕ) :
    Follows (m.poll command budget : Run σ ℕ) {[.atHost m command false]}∗ := by
  induction budget with
  | zero =>
    apply (Follows.pure 0).mono
    rintro _ events ⟨hnone, hreported⟩
    rw [(Language.mem_one _).mp hnone]
    exact ⟨Language.nil_mem_kstar _, hreported⟩
  | succ budget ih =>
    have hrest (output : Output) : Leaves (if !output.stderr.isEmpty then do
          Run.warn s!"[{m.host}] {output.stderr}"
          return 0
        else if output.stdout.isEmpty then return 0
        else do
          Run.sleep 2
          return 1 + (← m.poll command budget) : Run σ ℕ) fun _ events =>
        (output.stderr ≠ "" → .warned s!"[{m.host}] {output.stderr}" ∈ events) ∧
          errandsOf events ∈ ({[.atHost m command false]} : Language Errand)∗ ∧
          Reported events := by
      split_ifs with hstderr hstdout
      · apply ((leaves_warn _).bind fun _ => Leaves.pure 0).mono
        rintro _ _ ⟨_, _, _, rfl, rfl, -, rfl⟩
        exact ⟨fun _ => List.mem_cons_self, Language.nil_mem_kstar _, .of_logged (by simp)⟩
      · apply (Leaves.pure 0).mono
        rintro _ _ ⟨-, rfl⟩
        exact ⟨fun hne => absurd hne (by simpa using hstderr), Language.nil_mem_kstar _,
          .of_logged (by simp)⟩
      · have hagain := (Follows.sleep 2).after fun _ =>
          ih.before fun polls => Follows.pure (1 + polls)
        exact hagain.mono fun _ _ h => ⟨fun hne => absurd hne (by simpa using hstderr), h⟩
    apply ((leaves_exec m command false).bind hrest).mono
    rintro _ _ ⟨output, _, events, rfl, rfl, hwarned, herrands, hreported⟩
    constructor
    · obtain ⟨polls, hpolls, hall⟩ := Language.mem_kstar.mp herrands
      apply Language.mem_kstar.mpr
      refine ⟨[.atHost m command false] :: polls, ?_, ?_⟩
      · rw [List.flatten_cons, ← hpolls]
        rfl
      · rw [List.forall_mem_cons]
        exact ⟨Set.mem_singleton _, hall⟩
    · refine hreported.asked ?_
      rintro host ⟨⟩ hne
      exact hwarned hne

theorem follows_pollAll (command : String) (machines : List Machine) (budget : ℕ) :
    Follows (Machine.pollAll command machines budget : Run σ ℕ)
      (machines.map fun m => ({[.atHost m command false]} : Language Errand)∗).prod := by
  induction machines generalizing budget with
  | nil => exact Follows.pure 0
  | cons m machines ih =>
    rw [List.map_cons, List.prod_cons]
    apply (Follows.info _).after
    intro _
    apply (follows_poll m command budget).bind
    intro spent
    exact (ih (budget - spent)).before fun rest => Follows.pure (spent + rest)

namespace Machines

variable (ms : Machines)

def everywhere (hosts : HostSelection) (command : String) (asRoot : Bool) : Language Errand :=
  {(ms.select hosts).map fun m => .atHost m command asRoot}

def polls (hosts : HostSelection) (process : String) : Language Errand :=
  ((ms.select hosts).map fun m =>
    ({[.atHost m (ms.testbed.pollCommand process) false]} : Language Errand)∗).prod

theorem follows_exec (hosts : HostSelection) (command : String) (asRoot : Bool) :
    Follows (ms.exec hosts command asRoot : Run σ _) (ms.everywhere hosts command asRoot) :=
  follows_execAll _ command asRoot

theorem follows_waitForProcess (hosts : HostSelection) (process : String) (limit : ℕ)
    (kill : Bool) : Follows (ms.waitForProcess hosts process limit kill : Run σ Unit)
      ((if kill then ms.everywhere hosts s!"pkill -f {process}" false else 1) *
        ms.polls hosts process) := by
  have hpolls : Follows (do
      let checks ← Machine.pollAll (ms.testbed.pollCommand process) (ms.select hosts) limit
      if limit ≤ checks then
        Run.warn s!"stopped waiting for {process} after {limit} checks" : Run σ Unit)
      (ms.polls hosts process) := by
    have hwarn (checks : ℕ) : Follows (if limit ≤ checks then
        (Run.warn s!"stopped waiting for {process} after {limit} checks" : Run σ Unit)
        else pure ()) 1 := by
      split_ifs
      · exact Follows.warn _
      · exact Follows.pure ()
    exact (follows_pollAll _ _ limit).before hwarn
  cases kill with
  | false =>
    rw [if_neg Bool.false_ne_true, one_mul]
    exact hpolls
  | true => exact (follows_execAll _ _ false).bind fun _ => hpolls

end Machines

end ClusterBench
