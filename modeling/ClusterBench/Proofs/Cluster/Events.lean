import ClusterBench.Cluster.Remote
import ClusterBench.Proofs.Computations

/-!
# What a run does in order

A run leaves events behind: the commands that it hands to the shell, with the answers, and the lines
that it logs. The shell decides about the answers, so a path of events from one world to another
tells what a run has captured, also where nothing of it is logged.
-/

namespace ClusterBench

inductive Errand
  | atHost (m : Machine) (command : String) (asRoot : Bool)
  | copyFrom (m : Machine) (source target : String)
  /-- A command on the machine that drives the experiment. -/
  | here (command : String)

namespace Errand

def line : Errand → String
  | atHost m command asRoot => m.commandLine command asRoot
  | copyFrom m source target => m.copyFromLine source target
  | here command => Machine.controller.commandLine command false

def host? : Errand → Option String
  | atHost m .. | copyFrom m .. => some m.host
  | here _ => none

end Errand

inductive Event
  /-- A command with what it has written, unless it could not be started. -/
  | asked (errand : Errand) (answer : Option Output)
  | told (text : String)
  | warned (text : String)

namespace Event

def logLine : Event → LogLine
  | asked errand _ => .command errand.line
  | told text => .info text
  | warned text => .warn text

def errand? : Event → Option Errand
  | asked errand _ => some errand
  | _ => none

end Event

/-- The commands among some events. -/
def errandsOf (events : List Event) : List Errand := events.filterMap Event.errand?

def asks {α : Type} (errand : α → Errand) (answers : List (α × Option Output)) : List Event :=
  answers.map fun (a, answer) => .asked (errand a) answer

variable {σ α β : Type}

/-- Logs that something could not be done, unless it was. -/
def warnFailure (text : String) (result : Except Failure α) : Run σ Unit :=
  match result with
  | .error _ => Run.warn text
  | .ok _ => pure ()

variable [Shell σ]

inductive World.Path : World σ → List Event → World σ → Prop
  | refl (w : World σ) : Path w [] w
  | wait {w w' : World σ} {events : List Event} (slept : ℕ) :
      Path { w with slept } events w' → Path w events w'
  | tell {w w' : World σ} {events : List Event} (text : String) :
      Path { w with log := w.log ++ [.info text] } events w' → Path w (.told text :: events) w'
  | warn {w w' : World σ} {events : List Event} (text : String) :
      Path { w with log := w.log ++ [.warn text] } events w' → Path w (.warned text :: events) w'
  | answer {w w' : World σ} {events : List Event} {errand : Errand} {reply : Reply} {shell : σ}
      {files : Files} (h : Shell.execute w.shell w.files errand.line = some (reply, shell, files)) :
      Path { w with shell, files, log := w.log ++ [.command errand.line] } events w' →
        Path w (.asked errand (some (.ofReply reply)) :: events) w'
  | refuse {w w' : World σ} {events : List Event} {errand : Errand}
      (h : Shell.execute w.shell w.files errand.line = none) :
      Path { w with log := w.log ++ [.command errand.line] } events w' →
        Path w (.asked errand none :: events) w'

namespace World.Path

variable {w w' w'' : World σ} {events more : List Event}

theorem trans (h : w.Path events w') (h' : w'.Path more w'') : w.Path (events ++ more) w'' := by
  induction h with
  | refl w => exact h'
  | wait slept _ ih => exact (ih h').wait slept
  | tell text _ ih => exact (ih h').tell text
  | warn text _ ih => exact (ih h').warn text
  | answer hanswer _ ih => exact (ih h').answer hanswer
  | refuse hrefuse _ ih => exact (ih h').refuse hrefuse

/-- The log shows all events in order. -/
theorem log_eq (h : w.Path events w') : w'.log = w.log ++ events.map Event.logLine := by
  induction h with
  | refl w => exact (List.append_nil _).symm
  | wait slept _ ih => exact ih
  | tell text _ ih | warn text _ ih | answer _ _ ih | refuse _ _ ih =>
    rw [ih]
    exact List.append_assoc _ _ _

end World.Path

/-- A run that succeeds leaves events behind that fit its result. -/
def Leaves (run : Run σ α) (post : α → List Event → Prop) : Prop :=
  ∀ w a w', run w = (.ok a, w') → ∃ events, w.Path events w' ∧ post a events

omit [Shell σ] in
theorem attempt_bind_of_total {run : Run σ α} (htotal : Total run) (next : α → Run σ β) :
    Run.attempt (run >>= next) = run >>= fun a => Run.attempt (next a) := by
  funext w
  obtain ⟨a, ha⟩ := htotal w
  rw [bind_apply, Run.attempt, bind_apply]
  rcases hrun : run w with ⟨f | b, w'⟩
  · rw [hrun] at ha
    cases ha
  · rfl

namespace Leaves

variable {run : Run σ α} {post : α → List Event → Prop}

theorem mono (h : Leaves run post) {post' : α → List Event → Prop}
    (hpost : ∀ a events, post a events → post' a events) : Leaves run post' := by
  intro w a w' hrun
  obtain ⟨events, hpath, hevents⟩ := h w a w' hrun
  exact ⟨events, hpath, hpost a events hevents⟩

theorem pure (a : α) : Leaves (Pure.pure a : Run σ α) fun b events => b = a ∧ events = [] := by
  rintro w b w' hrun
  cases hrun
  exact ⟨[], .refl w, rfl, rfl⟩

theorem bind {next : α → Run σ β} {post' : α → β → List Event → Prop} (h : Leaves run post)
    (h' : ∀ a, Leaves (next a) (post' a)) : Leaves (run >>= next) fun b events =>
      ∃ a before after, events = before ++ after ∧ post a before ∧ post' a b after := by
  intro w b w'' hrun
  obtain ⟨a, w', hfirst, hnext⟩ := bind_apply_eq_ok.mp hrun
  obtain ⟨before, hbefore, hpost⟩ := h w a w' hfirst
  obtain ⟨after, hafter, hpost'⟩ := h' a w' b w'' hnext
  exact ⟨before ++ after, hbefore.trans hafter, a, before, after, rfl, hpost, hpost'⟩

theorem within (h : Leaves run post) (context : String) :
    Leaves (Run.within context run) post := by
  intro w a w' hrun
  unfold Run.within at hrun
  rcases hinner : run w with ⟨f | b, w''⟩
  · rw [hinner] at hrun
    cases hrun
  · rw [hinner] at hrun
    cases hrun
    exact h w _ _ hinner

theorem of_attempt {post : Except Failure α → List Event → Prop}
    (h : Leaves (Run.attempt run) post) : Leaves run fun a events => post (.ok a) events := by
  intro w a w' hrun
  apply h w (.ok a) w'
  rw [Run.attempt, hrun]

theorem attempt_map {post : Except Failure α → List Event → Prop}
    (h : Leaves (Run.attempt run) post) (f : α → β) :
    Leaves (Run.attempt (do return f (← run))) fun result events =>
      ∃ inner, result = inner.map f ∧ post inner events := by
  intro w result w' hrun
  have hinner : (Run.attempt run) w = (.ok (run w).1, (run w).2) := rfl
  obtain ⟨events, hpath, hpost⟩ := h w _ _ hinner
  rw [Run.attempt, bind_apply] at hrun
  rcases hw : run w with ⟨e | a, w''⟩
  all_goals
    rw [hw] at hrun hpath hpost
    cases hrun
    exact ⟨events, hpath, _, rfl, hpost⟩

/-- One command for each thing of a list. -/
theorem mapM {errand : α → Errand} {f : α → Run σ β} {R : α → Option Output → β → Prop}
    (h : ∀ a, Leaves (f a) fun b events =>
      ∃ answer, events = [.asked (errand a) answer] ∧ R a answer b) (as : List α) :
    Leaves (as.mapM f) fun bs events => ∃ answers : List (α × Option Output),
      answers.map Prod.fst = as ∧
        events = asks errand answers ∧
        List.Forall₂ (fun (a, answer) b => R a answer b) answers bs := by
  induction as with
  | nil =>
    apply (pure []).mono
    rintro _ _ ⟨rfl, rfl⟩
    exact ⟨[], rfl, rfl, .nil⟩
  | cons a as ih =>
    rw [List.mapM_cons]
    apply ((h a).bind fun b => ih.bind fun bs => pure (b :: bs)).mono
    rintro _ _ ⟨b, _, _, rfl, ⟨answer, rfl, hb⟩, bs, _, _, rfl, ⟨answers, rfl, rfl, hbs⟩, rfl, rfl⟩
    exact ⟨(a, answer) :: answers, rfl, by simp [asks], .cons hb hbs⟩

end Leaves

theorem leaves_info (text : String) :
    Leaves (Run.info text : Run σ Unit) fun _ events => events = [.told text] := by
  intro w _ w' hrun
  cases hrun
  exact ⟨_, (World.Path.refl _).tell text, rfl⟩

theorem leaves_warn (text : String) :
    Leaves (Run.warn text : Run σ Unit) fun _ events => events = [.warned text] := by
  intro w _ w' hrun
  cases hrun
  exact ⟨_, (World.Path.refl _).warn text, rfl⟩

theorem leaves_sleep (seconds : ℕ) :
    Leaves (Run.sleep seconds : Run σ Unit) fun _ events => events = [] := by
  intro w _ w' hrun
  cases hrun
  exact ⟨_, (World.Path.refl _).wait _, rfl⟩

theorem execute_apply (line : String) (w : World σ) : Run.execute line w =
    match Shell.execute w.shell w.files line with
    | some (reply, shell, files) =>
      (.ok (.ofReply reply), { w with shell, files, log := w.log ++ [.command line] })
    | none => (.error ((Failure.of (.file .notFound)).within "spawn command"),
        { w with log := w.log ++ [.command line] }) := by
  unfold Run.execute
  rw [bind_apply]
  dsimp only [Run.log, Run.within]
  cases Shell.execute w.shell w.files line <;> rfl

theorem leaves_attempt (errand : Errand) (context : String) :
    Leaves (Run.attempt (Run.within context (Run.execute errand.line)) : Run σ _)
      fun result events => events = [.asked errand result.toOption] := by
  intro w result w' hrun
  unfold Run.attempt Run.within at hrun
  rw [execute_apply] at hrun
  cases hanswer : Shell.execute w.shell w.files errand.line with
  | none =>
    rw [hanswer] at hrun
    cases hrun
    exact ⟨_, (World.Path.refl _).refuse hanswer, rfl⟩
  | some answer =>
    rw [hanswer] at hrun
    cases hrun
    exact ⟨_, (World.Path.refl _).answer hanswer, rfl⟩

def outputEvents (m : Machine) (output : Output) : List Event :=
  (if output.stdout.isEmpty then [] else [.told s!"[{m.host}] {output.stdout}"]) ++
    if output.stderr.isEmpty then [] else [.warned s!"[{m.host}] {output.stderr}"]

/-- What is logged about answers of machines: everything in front of the first one that is
missing. -/
def reports (machine : α → Machine) : List (α × Option Output) → List Event
  | [] => []
  | (_, none) :: _ => []
  | (a, some output) :: answers => outputEvents (machine a) output ++ reports machine answers

theorem leaves_logOutput (m : Machine) (output : Output) :
    Leaves (m.logOutput output : Run σ Unit) fun _ events => events = outputEvents m output := by
  have hwarn : Leaves (if !output.stderr.isEmpty then
      (Run.warn s!"[{m.host}] {output.stderr}" : Run σ Unit) else pure ()) fun _ events =>
        events =
          if output.stderr.isEmpty then [] else [.warned s!"[{m.host}] {output.stderr}"] := by
    cases output.stderr.isEmpty
    · exact leaves_warn _
    · exact (Leaves.pure ()).mono fun _ _ h => h.2
  unfold Machine.logOutput outputEvents
  cases output.stdout.isEmpty
  · apply ((leaves_info _).bind fun _ => hwarn).mono
    rintro _ _ ⟨_, _, _, rfl, rfl, rfl⟩
    rfl
  · exact hwarn

omit [Shell σ] in
theorem total_logOutput (m : Machine) (output : Output) :
    Total (m.logOutput output : Run σ Unit) := by
  intro w
  unfold Machine.logOutput
  split_ifs <;> exact ⟨(), rfl⟩

/-- A machine's answer to its only command, as the result of a run of commands. -/
def IsResult (answer : Option Output) (result : Except Failure (List Output)) : Prop :=
  result.toOption = answer.map fun output => [output]

/-- The result of commands: what is made of each answer, unless one of them is missing. -/
inductive Answered (result : α → Output → β) :
    List (α × Option Output) → Except Failure (List β) → Prop
  | nil : Answered result [] (.ok [])
  | missing (a : α) (answers : List (α × Option Output)) (f : Failure) :
      Answered result ((a, none) :: answers) (.error f)
  | cons (a : α) (output : Output) {answers : List (α × Option Output)}
      {outcome : Except Failure (List β)} (h : Answered result answers outcome) :
      Answered result ((a, some output) :: answers) (outcome.map (result a output :: ·))

namespace Answered

variable {result : α → Output → β} {answers : List (α × Option Output)}
  {outcome : Except Failure (List β)}

theorem toOption_eq (h : Answered result answers outcome) :
    outcome.toOption = answers.mapM fun answer => answer.2.map (result answer.1) := by
  induction h with
  | nil => rfl
  | missing a answers f =>
    rw [List.mapM_cons]
    rfl
  | @cons a output answers outcome h ih =>
    rw [List.mapM_cons, ← ih]
    cases outcome <;> rfl

theorem isOk_iff (h : Answered result answers outcome) :
    outcome.isOk ↔ ∀ answer ∈ answers, answer.2.isSome := by
  induction h with
  | nil => simp [Except.isOk, Except.toBool]
  | missing a answers f => simp [Except.isOk, Except.toBool]
  | @cons a output answers outcome h ih =>
    rw [List.forall_mem_cons, ← ih]
    cases outcome <;> simp [Except.map, Except.isOk, Except.toBool]

theorem map {γ : Type} (h : Answered result answers outcome) (f : β → γ) :
    Answered (fun a output => f (result a output)) answers (outcome.map (List.map f)) := by
  induction h with
  | nil => exact .nil
  | missing a answers e => exact .missing a answers e
  | @cons a output answers outcome h ih =>
    have hcons := Answered.cons a output ih
    cases outcome <;> exact hcons

end Answered

theorem leaves_collect {machine : α → Machine} {answers : List (α × Option Output)}
    {results : List (Machine × Except Failure (List Output))}
    (h : List.Forall₂ (fun (a, answer) (m, result) => m = machine a ∧ IsResult answer result)
      answers results) :
    Leaves (Run.attempt (Machine.collect results) : Run σ _) fun outcome events =>
      events = reports machine answers ∧
        Answered (fun a output => (machine a, [output])) answers outcome := by
  induction h with
  | nil =>
    rintro w _ w' hrun
    cases hrun
    exact ⟨[], .refl w, rfl, .nil⟩
  | @cons answer result answers results hresult h ih =>
    obtain ⟨a, answer⟩ := answer
    obtain ⟨m, result⟩ := result
    obtain ⟨rfl, hresult⟩ := hresult
    cases answer with
    | none =>
      cases result with
      | ok outputs => simp [IsResult, Except.toOption] at hresult
      | error f =>
        rintro w _ w' hrun
        cases hrun
        exact ⟨[], .refl w, rfl, .missing a answers f⟩
    | some output =>
      cases result with
      | error f => simp [IsResult, Except.toOption] at hresult
      | ok outputs =>
        obtain rfl : outputs = [output] := by simpa [IsResult, Except.toOption] using hresult
        have hcollect : Machine.collect (σ := σ) ((machine a, .ok [output]) :: results) = (do
            (machine a).logOutput output
            return (machine a, [output]) :: (← Machine.collect results)) := by
          change (do
            [output].forM (machine a).logOutput
            return (machine a, [output]) :: (← Machine.collect results) : Run σ _) = _
          simp only [List.forM, bind_assoc, pure_bind]
        rw [hcollect, attempt_bind_of_total (total_logOutput _ output)]
        apply ((leaves_logOutput _ output).bind fun _ =>
          ih.attempt_map ((machine a, [output]) :: ·)).mono
        rintro _ _ ⟨_, _, _, rfl, rfl, inner, rfl, rfl, hinner⟩
        exact ⟨rfl, .cons a output hinner⟩

theorem leaves_attempt_exec (m : Machine) (command : String) (asRoot : Bool) :
    Leaves (Run.attempt (m.exec command asRoot) : Run σ _) fun result events =>
      events = [.asked (.atHost m command asRoot) result.toOption] :=
  leaves_attempt (.atHost m command asRoot) _

theorem leaves_exec (m : Machine) (command : String) (asRoot : Bool) :
    Leaves (m.exec command asRoot : Run σ _) fun output events =>
      events = [.asked (.atHost m command asRoot) (some output)] :=
  (leaves_attempt_exec m command asRoot).of_attempt

theorem execEach_eq (machine : α → Machine) (command : α → String) (as : List α) (asRoot : Bool) :
    (Machine.execEach (as.map fun a => (machine a, [command a])) asRoot : Run σ _) = (do
      let results ← as.mapM fun a => do
        return (machine a, ← Run.attempt ((machine a).execSequence [command a] asRoot))
      Machine.collect results) := by
  unfold Machine.execEach
  rw [List.mapM_map]
  rfl

/-- All commands are handed over before anything is logged about them. -/
theorem leaves_execEach (machine : α → Machine) (command : α → String) (as : List α)
    (asRoot : Bool) :
    Leaves (Run.attempt (Machine.execEach (as.map fun a => (machine a, [command a])) asRoot) :
        Run σ _) fun outcome events =>
      ∃ answers : List (α × Option Output), answers.map Prod.fst = as ∧
        events = asks (fun a => .atHost (machine a) (command a) asRoot) answers ++
          reports machine answers ∧
        Answered (fun a output => (machine a, [output])) answers outcome := by
  have hone (a : α) : Leaves (do
      return (machine a, ← Run.attempt ((machine a).execSequence [command a] asRoot)) : Run σ _)
        fun result events => ∃ answer,
          events = [.asked (.atHost (machine a) (command a) asRoot) answer] ∧
            result.1 = machine a ∧ IsResult answer result.2 := by
    have hsequence : (machine a).execSequence (σ := σ) [command a] asRoot = (do
        return [← (machine a).exec (command a) asRoot]) := by
      simp [Machine.execSequence, List.mapM_cons]
    rw [hsequence]
    apply (((leaves_attempt_exec _ _ _).attempt_map _).bind fun result =>
      Leaves.pure (machine a, result)).mono
    rintro _ _ ⟨_, _, _, rfl, ⟨inner, rfl, rfl⟩, rfl, rfl⟩
    refine ⟨inner.toOption, rfl, rfl, ?_⟩
    cases inner <;> rfl
  have htotal : Total (as.mapM fun a => do
      return (machine a, ← Run.attempt ((machine a).execSequence [command a] asRoot)) : Run σ _) :=
    Total.mapM (fun a => Total.bind (fun w => ⟨_, rfl⟩) fun result => Total.pure _) as
  intro w outcome w'' hrun
  rw [execEach_eq, attempt_bind_of_total htotal] at hrun
  obtain ⟨results, w', hresults, hcollect⟩ := bind_apply_eq_ok.mp hrun
  obtain ⟨asked, hasked, answers, hanswers, rfl, hall⟩ := Leaves.mapM hone as w results w' hresults
  obtain ⟨_, hlogged, rfl, hanswered⟩ := leaves_collect hall w' outcome w'' hcollect
  exact ⟨_, hasked.trans hlogged, answers, hanswers, rfl, hanswered⟩

theorem leaves_execAll (machines : List Machine) (command : String) (asRoot : Bool) :
    Leaves (Run.attempt (Machine.execAll machines command asRoot) : Run σ _) fun outcome events =>
      ∃ answers : List (Machine × Option Output), answers.map Prod.fst = machines ∧
        events = asks (fun m => .atHost m command asRoot) answers ++ reports id answers ∧
        Answered Prod.mk answers outcome := by
  apply ((leaves_execEach id (fun _ => command) machines asRoot).attempt_map _).mono
  rintro _ _ ⟨inner, rfl, answers, hanswers, rfl, hanswered⟩
  exact ⟨answers, hanswers, rfl, hanswered.map fun result : Machine × List Output =>
    (result.1, result.2.getLast?.getD ⟨"", ""⟩)⟩

def copyReports (answers : List (Machine × Option Output)) : List Event :=
  (answers.filter (·.2.isNone)).map fun _ => .warned "copy failed"

omit [Shell σ] in
theorem forIn_eq_forM {f : α → Run σ Unit} {step : α → PUnit → Run σ (ForInStep PUnit)}
    (h : ∀ a, step a ⟨⟩ = (do f a; return .yield ⟨⟩)) (as : List α) :
    forIn as ⟨⟩ step = as.forM f := by
  induction as with
  | nil => rfl
  | cons a as ih =>
    rw [List.forIn_cons, h, bind_assoc]
    change (f a >>= fun _ => forIn as ⟨⟩ step) = (f a >>= fun _ => as.forM f)
    rw [ih]

theorem copyFromAll_eq (machines : List Machine) (source target : String) :
    (Machine.copyFromAll machines source target : Run σ _) = (do
      let results ← machines.mapM fun m => Run.attempt (m.copyFrom source target)
      results.forM (warnFailure "copy failed")
      return results) := by
  unfold Machine.copyFromAll
  apply bind_congr
  intro results
  apply congrArg (· >>= fun _ => pure results)
  apply forIn_eq_forM
  intro result
  cases result <;> rfl

theorem leaves_warnFailures {answers : List (Machine × Option Output)}
    {results : List (Except Failure Output)}
    (h : List.Forall₂ (fun answer result => answer.2 = result.toOption) answers results) :
    Leaves (results.forM (warnFailure "copy failed") : Run σ Unit) fun _ events =>
      events = copyReports answers := by
  induction h with
  | nil => exact (Leaves.pure ()).mono fun _ _ h => h.2
  | @cons answer result answers results hresult h ih =>
    obtain ⟨m, answer⟩ := answer
    cases result with
    | error f =>
      obtain rfl : answer = none := hresult
      apply ((leaves_warn "copy failed").bind fun _ => ih).mono
      rintro _ _ ⟨_, _, _, rfl, rfl, rfl⟩
      rfl
    | ok output =>
      obtain rfl : answer = some output := hresult
      exact ih

theorem leaves_copyFromAll (machines : List Machine) (source target : String) :
    Leaves (Machine.copyFromAll machines source target : Run σ _) fun _ events =>
      ∃ answers : List (Machine × Option Output), answers.map Prod.fst = machines ∧
        events = asks (fun m => .copyFrom m source target) answers ++ copyReports answers := by
  have hone (m : Machine) : Leaves (Run.attempt (m.copyFrom source target) : Run σ _)
      fun result events => ∃ answer, events = [.asked (.copyFrom m source target) answer] ∧
        answer = result.toOption := by
    apply (leaves_attempt (.copyFrom m source target) _).mono
    rintro result _ rfl
    exact ⟨_, rfl, rfl⟩
  rw [copyFromAll_eq]
  intro w results w'' hrun
  obtain ⟨results, w', hresults, hrest⟩ := bind_apply_eq_ok.mp hrun
  obtain ⟨asked, hasked, answers, hanswers, rfl, hall⟩ :=
    Leaves.mapM hone machines w results w' hresults
  obtain ⟨_, hlogged, -, -, _, rfl, rfl, -, rfl⟩ :=
    ((leaves_warnFailures hall).bind fun _ => Leaves.pure results) w' _ w'' hrest
  refine ⟨_, hasked.trans hlogged, answers, hanswers, ?_⟩
  rw [List.append_nil]

end ClusterBench
