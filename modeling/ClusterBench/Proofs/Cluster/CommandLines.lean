import ClusterBench.Proofs.Binary64.Digits
import ClusterBench.Proofs.Cluster.Errands

/-!
# The command lines of a run

A run hands command lines to the shell whether it fails later or not, and the log shows them all.
`Issues` tells what they are; `Avoids` tells what they are not; `Starts` is about runs that go
through a list of errands and stop early only if they fail.
-/

namespace ClusterBench

open scoped Computability

variable {σ α β : Type}

def LogLine.command? : LogLine → Option String
  | command line => some line
  | _ => none

def World.commands (w : World σ) : List String := w.log.filterMap LogLine.command?

theorem commands_eq_append {w w' : World σ} {lines : List LogLine} (h : w'.log = w.log ++ lines) :
    w'.commands = w.commands ++ lines.filterMap LogLine.command? := by
  unfold World.commands
  rw [h, List.filterMap_append]

theorem command?_logLines (events : List Event) :
    (events.map Event.logLine).filterMap LogLine.command? =
      (errandsOf events).map Errand.line := by
  induction events with
  | nil => rfl
  | cons event events ih =>
    cases event with
    | asked errand answer => exact congrArg (errand.line :: ·) ih
    | told text => exact ih
    | warned text => exact ih

theorem commands_log {line : LogLine} (h : line.command? = none) (w : World σ) :
    (Run.log line w).2.commands = w.commands := by
  have hlines : (Run.log line w).2.commands = w.commands ++ [line].filterMap LogLine.command? :=
    commands_eq_append rfl
  rw [hlines, List.filterMap_cons_none h, List.filterMap_nil, List.append_nil]

def Issues (post : Bool → List String → Prop) (run : Run σ α) : Prop :=
  ∀ w, ∃ lines, (run w).2.commands = w.commands ++ lines ∧ post (run w).1.isOk lines

namespace Issues

variable {post post' : Bool → List String → Prop} {run : Run σ α}

theorem mono (h : Issues post run) (hpost : ∀ ok lines, post ok lines → post' ok lines) :
    Issues post' run := by
  intro w
  obtain ⟨lines, hlines, hok⟩ := h w
  exact ⟨lines, hlines, hpost _ _ hok⟩

theorem silent (h : ∀ w, (run w).2.commands = w.commands) :
    Issues (fun _ lines => lines = []) run :=
  fun w => ⟨[], by rw [h, List.append_nil], rfl⟩

theorem within (h : Issues post run) (context : String) :
    Issues post (Run.within context run) := by
  intro w
  obtain ⟨lines, hlines, hok⟩ := h w
  refine ⟨lines, hlines, ?_⟩
  have hsame : (Run.within context run w).1.isOk = (run w).1.isOk := by
    unfold Run.within
    rcases run w with ⟨_ | _, _⟩ <;> rfl
  rwa [hsame]

/-- A run that stops at its first part, or goes on with the second one. -/
theorem bind {next : α → Run σ β} (h : Issues post run) (h' : ∀ a, Issues post' (next a)) :
    Issues (fun ok lines => ok = false ∧ post false lines ∨
      ∃ before after, lines = before ++ after ∧ post true before ∧ post' ok after)
      (run >>= next) := by
  intro w
  obtain ⟨before, hbefore, hpost⟩ := h w
  rw [bind_apply]
  rcases hrun : run w with ⟨f | a, w'⟩
  · rw [hrun] at hbefore hpost
    exact ⟨before, hbefore, Or.inl ⟨rfl, hpost⟩⟩
  · rw [hrun] at hbefore hpost
    obtain ⟨after, hafter, hpost'⟩ := h' a w'
    refine ⟨before ++ after, ?_, Or.inr ⟨before, after, rfl, hpost, hpost'⟩⟩
    rw [hafter, hbefore, List.append_assoc]

variable [Shell σ]

theorem of_attempt {post : Except Failure α → List Event → Prop}
    (h : Leaves (Run.attempt run) post) : Issues (fun ok lines => ∃ result events,
      ok = result.isOk ∧ lines = (errandsOf events).map Errand.line ∧ post result events) run := by
  intro w
  obtain ⟨events, hpath, hpost⟩ := h w _ _ rfl
  refine ⟨_, ?_, (run w).1, events, rfl, rfl, hpost⟩
  rw [← command?_logLines]
  exact commands_eq_append hpath.log_eq

/-- What follows a plan if it succeeds. -/
theorem follows {plan : Language Errand} (h : Issues post run) (hplan : Follows run plan) :
    Issues (fun ok lines => post ok lines ∧
      (ok = true → ∃ errands ∈ plan, lines = errands.map Errand.line)) run := by
  intro w
  obtain ⟨lines, hlines, hok⟩ := h w
  refine ⟨lines, hlines, hok, fun htrue => ?_⟩
  obtain ⟨a, ha⟩ := exists_eq_ok_of_isOk htrue
  obtain ⟨events, hpath, hevents, -⟩ := hplan w a (run w).2 (Prod.ext ha rfl)
  refine ⟨_, hevents, ?_⟩
  have hevents := commands_eq_append hpath.log_eq
  rw [command?_logLines] at hevents
  exact List.append_cancel_left (hlines.symm.trans hevents)

end Issues

/-- The last character of a text, apart from quotes that are closed at its end. -/
def finalChar? (text : String) : Option Char := (text.toList.reverse.dropWhile (· == '"')).head?

theorem finalChar?_append (front : String) {text : String} {c : Char}
    (h : finalChar? text = some c) : finalChar? (front ++ text) = some c := by
  unfold finalChar? at h ⊢
  rw [String.toList_append, List.reverse_append, List.dropWhile_append, if_neg]
  · rw [List.head?_append, h]
    rfl
  · intro hempty
    rw [List.isEmpty_iff.mp hempty] at h
    cases h

theorem finalChar?_quote (text : String) : finalChar? (text ++ "\"") = finalChar? text := by
  unfold finalChar?
  rw [String.toList_append, List.reverse_append]
  rfl

theorem finalChar?_commandLine (m : Machine) {command : String} (asRoot : Bool) {c : Char}
    (h : finalChar? command = some c) : finalChar? (m.commandLine command asRoot) = some c := by
  have hcommand : finalChar? (if asRoot then "sudo " ++ command else command) = some c := by
    split_ifs
    · exact finalChar?_append _ h
    · exact h
  cases m with
  | here host => exact hcommand
  | remote host username keyFile =>
    exact (finalChar?_quote _).trans (finalChar?_append _ hcommand)

theorem finalChar?_copyFromLine (m : Machine) (source : String) {target : String} {c : Char}
    (h : finalChar? target = some c) : finalChar? (m.copyFromLine source target) = some c := by
  cases m <;> exact finalChar?_append _ h

theorem finalChar?_toString (n : ℕ) : ∃ c, c.isDigit ∧ finalChar? (toString n) = some c := by
  have hne : (Nat.toDigits 10 n).reverse ≠ [] := by simp
  obtain ⟨c, cs, hdigits⟩ := List.exists_cons_of_ne_nil hne
  have hdigit : c.isDigit := by
    apply allDigits_toDigits n c
    rw [← List.mem_reverse, hdigits]
    exact List.mem_cons_self
  refine ⟨c, hdigit, ?_⟩
  have hquote : (c == '"') = false := by
    rw [beq_eq_false_iff_ne]
    rintro rfl
    cases hdigit
  change ((toString n).toList.reverse.dropWhile _).head? = _
  rw [show (toString n).toList = Nat.toDigits 10 n from Nat.toList_repr, hdigits,
    List.dropWhile_cons, hquote]
  rfl

def Avoids (p : String → Prop) (run : Run σ α) : Prop :=
  Issues (fun _ lines => ∀ line ∈ lines, ¬p line) run

namespace Avoids

variable {p : String → Prop} {run : Run σ α}

theorem silent (h : ∀ w, (run w).2.commands = w.commands) : Avoids p run :=
  (Issues.silent h).mono fun _ _ hnil => by simp [hnil]

theorem pure (a : α) : Avoids p (Pure.pure a : Run σ α) := silent fun _ => rfl

theorem info (text : String) : Avoids p (Run.info text : Run σ Unit) := silent (commands_log rfl)

theorem warn (text : String) : Avoids p (Run.warn text : Run σ Unit) := silent (commands_log rfl)

theorem bind {next : α → Run σ β} (h : Avoids p run) (h' : ∀ a, Avoids p (next a)) :
    Avoids p (run >>= next) := by
  apply (Issues.bind h h').mono
  rintro _ _ (⟨-, hlines⟩ | ⟨before, after, rfl, hbefore, hafter⟩)
  · exact hlines
  · exact List.forall_mem_append.mpr ⟨hbefore, hafter⟩

theorem within (h : Avoids p run) (context : String) : Avoids p (Run.within context run) :=
  Issues.within h context

theorem attempt (h : Avoids p run) : Avoids p (Run.attempt run) := h

theorem ite {c : Prop} [Decidable c] {run run' : Run σ α} (h : Avoids p run)
    (h' : Avoids p run') : Avoids p (if c then run else run') := by
  split_ifs
  · exact h
  · exact h'

theorem mapM {f : α → Run σ β} {as : List α} (h : ∀ a ∈ as, Avoids p (f a)) :
    Avoids p (as.mapM f) := by
  induction as with
  | nil => exact pure []
  | cons a as ih =>
    rw [List.forall_mem_cons] at h
    rw [List.mapM_cons]
    exact h.1.bind fun _ => (ih h.2).bind fun _ => pure _

theorem forM {f : α → Run σ Unit} {as : List α} (h : ∀ a ∈ as, Avoids p (f a)) :
    Avoids p (as.forM f) := by
  induction as with
  | nil => exact pure ()
  | cons a as ih =>
    rw [List.forall_mem_cons] at h
    exact h.1.bind fun _ => ih h.2

theorem pause (seconds : ℕ) : Avoids p (Run.pause seconds : Run σ Unit) := by
  unfold Run.pause
  exact ite ((info _).bind fun _ => silent fun _ => rfl) (pure ())

theorem logOutput (m : Machine) (output : Output) :
    Avoids p (m.logOutput output : Run σ Unit) := by
  have hwarn : Avoids p (if !output.stderr.isEmpty then
      (Run.warn s!"[{m.host}] {output.stderr}" : Run σ Unit) else Pure.pure ()) :=
    ite (warn _) (pure ())
  unfold Machine.logOutput
  exact ite ((info _).bind fun _ => hwarn) hwarn

variable [Shell σ]

theorem execute {line : String} (h : ¬p line) : Avoids p (Run.execute line : Run σ Output) := by
  intro w
  have hlog : (Run.execute line w).2.log = w.log ++ [.command line] := by
    rw [execute_apply]
    cases Shell.execute w.shell w.files line <;> rfl
  exact ⟨[line], commands_eq_append hlog, by simpa using h⟩

theorem exec {m : Machine} {command : String} {asRoot : Bool}
    (h : ¬p (m.commandLine command asRoot)) : Avoids p (m.exec command asRoot : Run σ Output) :=
  (execute h).within _

variable {machines : List Machine} {command : String}

theorem execAll {asRoot : Bool} (h : ∀ m ∈ machines, ¬p (m.commandLine command asRoot)) :
    Avoids p (Machine.execAll machines command asRoot : Run σ _) := by
  apply (Issues.of_attempt (leaves_execAll machines command asRoot)).mono
  rintro _ _ ⟨result, _, -, rfl, answers, rfl, rfl, -⟩
  rw [errandsOf_append, errandsOf_eq_nil (asked_notMem_reports _ _), List.append_nil,
    errandsOf_asks]
  intro line hline
  obtain ⟨errand, herrand, rfl⟩ := List.mem_map.mp hline
  obtain ⟨m, hm, rfl⟩ := List.mem_map.mp herrand
  exact h m hm

theorem copyFromAll {source target : String}
    (h : ∀ m ∈ machines, ¬p (m.copyFromLine source target)) :
    Avoids p (Machine.copyFromAll machines source target : Run σ _) := by
  rw [copyFromAll_eq]
  apply bind
  · exact mapM fun m hm => ((execute (h m hm)).within _).attempt
  · refine fun results => bind (forM fun result _ => ?_) fun _ => pure _
    cases result with
    | error f => exact warn _
    | ok output => exact pure ()

theorem poll {m : Machine} (h : ¬p (m.commandLine command false)) (budget : ℕ) :
    Avoids p (m.poll command budget : Run σ ℕ) := by
  induction budget with
  | zero => exact pure 0
  | succ budget ih =>
    apply (exec h).bind
    intro output
    apply ite ((warn _).bind fun _ => pure 0)
    apply ite (pure 0)
    exact (silent fun _ => rfl).bind fun _ => ih.bind fun _ => pure _

theorem pollAll (h : ∀ m ∈ machines, ¬p (m.commandLine command false)) (budget : ℕ) :
    Avoids p (Machine.pollAll command machines budget : Run σ ℕ) := by
  induction machines generalizing budget with
  | nil => exact pure 0
  | cons m machines ih =>
    rw [List.forall_mem_cons] at h
    apply (info _).bind
    intro _
    apply (poll h.1 budget).bind
    exact fun spent => (ih h.2 (budget - spent)).bind fun _ => pure _

theorem waitForProcess {ms : Machines} {hosts : HostSelection} {process : String} {kill : Bool}
    (hkill : ∀ m : Machine, ¬p (m.commandLine s!"pkill -f {process}" false))
    (hpoll : ∀ m : Machine, ¬p (m.commandLine (ms.testbed.pollCommand process) false))
    (limit : ℕ) : Avoids p (ms.waitForProcess hosts process limit kill : Run σ Unit) := by
  have hpolls : Avoids p (do
      let checks ← Machine.pollAll (ms.testbed.pollCommand process) (ms.select hosts) limit
      if limit ≤ checks then
        Run.warn s!"stopped waiting for {process} after {limit} checks" : Run σ Unit) :=
    (pollAll (fun m _ => hpoll m) limit).bind fun _ => ite (warn _) (pure ())
  unfold Machines.waitForProcess
  exact ite ((execAll fun m _ => hkill m).bind fun _ => hpolls) hpolls

end Avoids

def Starts (errands : List Errand) (run : Run σ α) : Prop :=
  Issues (fun ok lines => ∃ started, started <+: errands ∧ lines = started.map Errand.line ∧
    (ok = true → started = errands)) run

namespace Starts

variable {errands more : List Errand} {run : Run σ α}

theorem of_avoids (h : Avoids (fun _ => True) run) : Starts [] run := by
  apply Issues.mono h
  intro ok lines hlines
  obtain rfl : lines = [] := List.eq_nil_iff_forall_not_mem.mpr fun line hline =>
    hlines line hline trivial
  exact ⟨[], List.prefix_rfl, rfl, fun _ => rfl⟩

theorem bind {next : α → Run σ β} (h : Starts errands run) (h' : ∀ a, Starts more (next a)) :
    Starts (errands ++ more) (run >>= next) := by
  apply (Issues.bind h h').mono
  rintro _ _ (⟨rfl, started, hprefix, rfl, -⟩ |
    ⟨_, _, rfl, ⟨first, -, rfl, hall⟩, started, hprefix, rfl, hok⟩)
  · exact ⟨started, hprefix.trans (List.prefix_append _ _), rfl, nofun⟩
  · rw [hall rfl]
    exact ⟨errands ++ started, (List.prefix_append_right_inj errands).mpr hprefix,
      List.map_append.symm, fun h => by rw [hok h]⟩

/-- Behind something that hands over no command. -/
theorem after {next : α → Run σ β} (h : Avoids (fun _ => True) run)
    (h' : ∀ a, Starts errands (next a)) : Starts errands (run >>= next) :=
  (of_avoids h).bind h'

/-- In front of something that hands over no command. -/
theorem before {next : α → Run σ β} (h : Starts errands run)
    (h' : ∀ a, Avoids (fun _ => True) (next a)) : Starts errands (run >>= next) := by
  have hbind := h.bind fun a => of_avoids (h' a)
  rwa [List.append_nil] at hbind

theorem within (h : Starts errands run) (context : String) :
    Starts errands (Run.within context run) := Issues.within h context

theorem forM {f : α → Run σ Unit} {errand : α → Errand} (h : ∀ a, Starts [errand a] (f a))
    (as : List α) : Starts (as.map errand) (as.forM f) := by
  induction as with
  | nil => exact of_avoids (Avoids.pure ())
  | cons a as ih => exact (h a).bind fun _ => ih

variable [Shell σ]

theorem exec (m : Machine) (command : String) (asRoot : Bool) :
    Starts [.atHost m command asRoot] (m.exec command asRoot : Run σ Output) := by
  apply (Issues.of_attempt (leaves_attempt_exec m command asRoot)).mono
  rintro _ _ ⟨result, _, -, rfl, rfl⟩
  exact ⟨_, List.prefix_rfl, rfl, fun _ => rfl⟩

/-- The commands for all machines are handed over even if one of them cannot be started. -/
theorem execEach (machine : α → Machine) (command : α → String) (as : List α) (asRoot : Bool) :
    Starts (as.map fun a => .atHost (machine a) (command a) asRoot)
      (Machine.execEach (as.map fun a => (machine a, [command a])) asRoot : Run σ _) := by
  apply (Issues.of_attempt (leaves_execEach machine command as asRoot)).mono
  rintro _ _ ⟨result, _, -, rfl, answers, rfl, rfl, -⟩
  refine ⟨_, List.prefix_rfl, ?_, fun _ => rfl⟩
  rw [errandsOf_append, errandsOf_eq_nil (asked_notMem_reports _ _), List.append_nil,
    errandsOf_asks]

end Starts

end ClusterBench
