import ClusterBench.Cluster.Script
import ClusterBench.Proofs.Experiment.Phases
import ClusterBench.Proofs.Experiment.TestDirs

/-!
# The summary and the progress of a batch

A test adds one line to the summary of its batch and is counted, or it fails and does neither. So
the summary and the progress of a batch stay in step, wherever the batch stops.
-/

namespace ClusterBench

variable {σ τ : Type}

namespace Run

theorem total_log (line : LogLine) : Total (log line : Run σ Unit) := fun _ => ⟨(), rfl⟩

theorem total_pause (seconds : ℕ) : Total (pause seconds : Run σ Unit) := by
  unfold pause
  split_ifs
  · exact (total_log _).bind fun _ _ => ⟨(), rfl⟩
  · exact Total.pure _

theorem within_apply {α : Type} (context : String) (run : Run σ α) (w : World σ) :
    within context run w = (inContext context (run w).1, (run w).2) := rfl

theorem filing_change (change : Files → Except FileFault Files) (w : World σ) :
    filing (Filing.change change) w =
      match change w.files with
      | .ok files => (.ok (), { w with files })
      | .error fault => (.error (.of (.file fault)), w) := by
  unfold filing Filing.change
  cases change w.files <;> rfl

end Run

namespace Experiment

variable (e : Experiment)

def batchView (w : World σ) : List UInt8 × Progress := (w.files.content e.batchFile, w.progress)

def lineBytes (line : String) : List UInt8 := Utf8.encode (line ++ "\n")

def resultsIn (files : Files) (testDir : String) : String :=
  (files.readText s!"{testDir}/all-results.csv").toOption.getD ""

/-- A run adds a line to the summary, or it fails and adds nothing. -/
def AddsOrFails (run : Run σ Unit) (w : World σ) (line : String) : Prop :=
  (∃ f w', run w = (.error f, w') ∧ e.batchView w' = e.batchView w) ∨
    ∃ w', run w = (.ok (), w') ∧
      e.batchView w' = ((e.batchView w).1 ++ lineBytes line, (e.batchView w).2)

variable {e}

theorem AddsOrFails.within {run : Run σ Unit} {w : World σ} {line : String}
    (h : e.AddsOrFails run w line) (context : String) :
    e.AddsOrFails (Run.within context run) w line := by
  rcases h with ⟨f, w', hrun, hview⟩ | ⟨w', hrun, hview⟩
  · exact Or.inl ⟨f.within context, w', by rw [Run.within_apply, hrun]; rfl, hview⟩
  · exact Or.inr ⟨w', by rw [Run.within_apply, hrun]; rfl, hview⟩

theorem AddsOrFails.before {run : Run σ Unit} {rest : Run σ Unit} {w : World σ} {line : String}
    (h : e.AddsOrFails run w line) (htotal : Total rest) (hkeeps : Keeps e.batchView rest) :
    e.AddsOrFails (run >>= fun _ => rest) w line := by
  rcases h with ⟨f, w', hrun, hview⟩ | ⟨w', hrun, hview⟩
  · exact Or.inl ⟨f, w', by rw [bind_apply, hrun], hview⟩
  · obtain ⟨⟨⟩, hok⟩ := htotal w'
    refine Or.inr ⟨(rest w').2, ?_, (hkeeps w').trans hview⟩
    rw [bind_apply, hrun]
    exact Prod.ext hok rfl

theorem AddsOrFails.after {run start : Run σ Unit} {w : World σ} {line : String}
    (hstart : Keeps e.batchView start) (h : e.AddsOrFails run (start w).2 line) :
    e.AddsOrFails (start >>= fun _ => run) w line := by
  have hview := hstart w
  unfold AddsOrFails at h ⊢
  rw [hview] at h
  rw [bind_apply]
  rcases hrun : start w with ⟨f | a, w'⟩
  · rw [hrun] at hview
    exact Or.inl ⟨f, w', rfl, hview⟩
  · rwa [hrun] at h

variable (e)

theorem appendLine_adds (line : String) (w : World σ) :
    e.AddsOrFails (e.appendLine line) w line := by
  unfold appendLine
  cases hopen : w.files.append e.batchFile [] with
  | error fault =>
    refine Or.inl ⟨(Failure.of (.file fault)).within s!"open {e.batchFile}", w, ?_, rfl⟩
    rw [bind_apply, Run.within_apply, Run.filing_change, hopen]
    rfl
  | ok opened =>
    -- A file that could be opened takes the line.
    obtain ⟨hcontent, hagain⟩ := Files.append_eq_ok hopen
    obtain ⟨appended, happend⟩ := hagain (lineBytes line)
    obtain ⟨hcontent', -⟩ := Files.append_eq_ok happend
    rw [hcontent, List.append_nil] at hcontent'
    refine Or.inr ⟨{ w with log := w.log ++ [.info line], files := appended }, ?_, ?_⟩
    · rw [bind_apply, Run.within_apply, Run.filing_change, hopen]
      change Run.filing (Filing.change (·.append e.batchFile (lineBytes line)))
        { w with log := w.log ++ [.info line], files := opened } = _
      rw [Run.filing_change, happend]
    · exact Prod.ext hcontent' rfl

def readResults (testDir : String) : Run σ String := do
  let csv := s!"{testDir}/all-results.csv"
  match ← readIfText csv with
  | some text => pure text
  | none =>
    Run.warn s!"no results at {csv}"
    pure ""

def logResults (testDir results : String) : Run σ Unit := do
  if let some json ← readIfText s!"{testDir}/all-results.json" then Run.info json
  Run.info results

theorem getResults_eq (point : TestPoint) (testDir : String) :
    e.getResults point testDir = (do
      let results ← readResults testDir
      e.appendLine (point.summaryLine results)
      logResults testDir results : Run σ Unit) := by
  unfold getResults readResults logResults
  simp only [bind_assoc]
  apply bind_congr
  intro found
  cases found <;> rfl

theorem readResults_apply (testDir : String) (w : World σ) :
    ∃ w', readResults testDir w = (.ok (resultsIn w.files testDir), w') ∧
      w'.files = w.files ∧ w'.progress = w.progress := by
  unfold readResults resultsIn
  rw [bind_apply, readIfText]
  cases w.files.readText s!"{testDir}/all-results.csv" with
  | ok text => exact ⟨w, rfl, rfl, rfl⟩
  | error fault => exact ⟨_, rfl, rfl, rfl⟩

theorem total_logResults (testDir results : String) :
    Total (logResults testDir results : Run σ Unit) := by
  have hread (path : String) : Total (readIfText path : Run σ _) := fun _ => ⟨_, rfl⟩
  apply (hread _).bind
  intro found
  cases found with
  | none => exact Run.total_log _
  | some json => exact (Run.total_log _).bind fun _ => Run.total_log _

theorem keeps_logResults (testDir results : String) :
    Keeps e.batchView (logResults testDir results : Run σ Unit) := by
  have hread (path : String) : Keeps e.batchView (readIfText path : Run σ _) := fun _ => rfl
  have hinfo (text : String) : Keeps e.batchView (Run.info text : Run σ _) := fun _ => rfl
  apply (hread _).bind
  intro found
  cases found with
  | none => exact hinfo _
  | some json => exact (hinfo _).bind fun _ => hinfo _

theorem getResults_adds (point : TestPoint) (testDir : String) (w : World σ) :
    e.AddsOrFails (e.getResults point testDir) w
      (point.summaryLine (resultsIn w.files testDir)) := by
  obtain ⟨w', hread, hfiles, hprogress⟩ := readResults_apply testDir w
  have hview : e.batchView w' = e.batchView w := by
    unfold batchView
    rw [hfiles, hprogress]
  have hadds := (e.appendLine_adds (point.summaryLine (resultsIn w.files testDir)) w').before
    (total_logResults testDir (resultsIn w.files testDir)) (e.keeps_logResults _ _)
  unfold AddsOrFails at hadds ⊢
  rw [getResults_eq, bind_apply, hread]
  rwa [hview] at hadds

variable [Shell σ]

/-- No command writes the file. -/
def SparesFile (σ : Type) [Shell σ] (path : String) : Prop :=
  ∀ (shell shell' : σ) (files files' : Files) (line : String) (reply : Reply),
    Shell.execute shell files line = some (reply, shell', files') →
      files'.content path = files.content path

variable {e}

theorem undisturbed_batchView (h : SparesFile σ e.batchFile) :
    Undisturbed (e.batchView : World σ → _) where
  log _ _ := rfl
  slept _ _ := rfl
  command w line reply shell files heq := by
    unfold batchView
    rw [h w.shell shell w.files files line reply heq]

theorem runTest_adds (h : SparesFile σ e.batchFile) (point : TestPoint) (w : World σ) :
    e.AddsOrFails (e.runTest point) w
      (point.summaryLine (resultsIn (e.gather point w).2.files (e.testDir point))) := by
  have hview := undisturbed_batchView h
  rw [runTest_eq]
  apply AddsOrFails.after (hview.keeps_gather e point)
  exact ((e.getResults_adds point _ _).within "get_results").before
    (Run.total_pause 3) (hview.keeps_pause 3)

variable (e)

def untilResults (total : ℕ) (point : TestPoint) (index : ℕ) : Run σ Unit := do
  let id := point.testId.text
  Run.info s!"experiment {index + 1} of {total} | test id: {id} | run {point.testRun}"
  e.gather point

def resultLine (total : ℕ) (point : TestPoint) (index : ℕ) (w : World σ) : String :=
  point.summaryLine
    (resultsIn (e.untilResults total point index w).2.files (e.testDir point))

/-- The lines of tests in a row, each with the results that are there when it is over. -/
def batchLines (total : ℕ) : List (TestPoint × ℕ) → World σ → List String
  | [], _ => []
  | (point, index) :: rest, w =>
    e.resultLine total point index w ::
      batchLines total rest (e.runPoint total point index w).2

variable {e}

/-- A test adds its line and is counted, or it fails and does neither. -/
theorem runPoint_cases (h : SparesFile σ e.batchFile) (total : ℕ) (point : TestPoint) (index : ℕ)
    (w : World σ) :
    (∃ f : Failure, (e.runPoint total point index w).1 =
        .error (f.within s!"run test {point.testId.text}") ∧
      e.batchView (e.runPoint total point index w).2 = e.batchView w) ∨
    ((e.runPoint total point index w).1 = .ok () ∧
      e.batchView (e.runPoint total point index w).2 =
        (w.files.content e.batchFile ++ lineBytes (e.resultLine total point index w),
          w.progress.advance)) := by
  obtain ⟨announced, hlog, hrun, huntil⟩ : ∃ announced : World σ,
      e.batchView announced = e.batchView w ∧
      e.runPoint total point index w = (do
        Run.within s!"run test {point.testId.text}" (e.runTest point)
        Run.advance : Run σ Unit) announced ∧
      e.untilResults total point index w = e.gather point announced :=
    ⟨(Run.info _ w).2, rfl, rfl, rfl⟩
  rw [hrun, bind_apply, Run.within_apply, resultLine, huntil]
  rcases runTest_adds h point announced with ⟨f, w', htest, hview⟩ | ⟨w', htest, hview⟩
  · rw [htest]
    exact Or.inl ⟨f, rfl, hview.trans hlog⟩
  · rw [hlog] at hview
    obtain ⟨hcontent, hprogress⟩ := Prod.mk.inj hview
    rw [htest]
    refine Or.inr ⟨rfl, Prod.ext hcontent ?_⟩
    exact congrArg Progress.advance hprogress

/-- Tests in a row stop at the first one that fails; the ones before it have added their lines and
are counted. -/
theorem runPoints_cases (h : SparesFile σ e.batchFile) (total : ℕ)
    (points : List (TestPoint × ℕ)) (w : World σ) :
    let run : Run σ Unit := points.forM fun (point, index) => e.runPoint total point index
    ∃ k ≤ points.length,
      e.batchView (run w).2 =
        (w.files.content e.batchFile ++ ((e.batchLines total points w).take k).flatMap lineBytes,
          { w.progress with position := w.progress.position + k }) ∧
      ((run w).1 = .ok () ∧ k = points.length ∨
        ∃ (f : Failure) (hk : k < points.length),
          (run w).1 = .error (f.within s!"run test {points[k].1.testId.text}")) := by
  induction points generalizing w with
  | nil => exact ⟨0, le_rfl, Prod.ext (List.append_nil _).symm rfl, Or.inl ⟨rfl, rfl⟩⟩
  | cons head points ih =>
    obtain ⟨point, index⟩ := head
    intro run
    have hrun : run w = (do
        e.runPoint total point index
        points.forM fun (point, index) => e.runPoint total point index : Run σ Unit) w := rfl
    rw [hrun, bind_apply]
    rcases hpoint : e.runPoint total point index w with ⟨result, w'⟩
    have hcases := runPoint_cases h total point index w
    rw [hpoint] at hcases
    rcases hcases with ⟨f, rfl, hview⟩ | ⟨rfl, hview⟩
    · exact ⟨0, Nat.zero_le _, by simpa [batchView] using hview,
        Or.inr ⟨f, Nat.succ_pos _, rfl⟩⟩
    · obtain ⟨k, hk, hrest, hresult⟩ := ih w'
      obtain ⟨hcontent, hprogress⟩ := Prod.mk.inj hview
      refine ⟨k + 1, Nat.succ_le_succ hk, ?_, ?_⟩
      · rw [hcontent, hprogress] at hrest
        rw [batchLines, hpoint, List.take_succ_cons, List.flatMap_cons, ← List.append_assoc]
        apply hrest.trans
        simp [Progress.advance, Nat.add_comm 1 k, Nat.add_assoc]
      · rcases hresult with ⟨hok, rfl⟩ | ⟨f, hlt, herror⟩
        · exact Or.inl ⟨hok, rfl⟩
        · exact Or.inr ⟨f, Nat.succ_lt_succ hlt, herror⟩

def runTests (e : Experiment) (points : List TestPoint) : Run σ Unit := do
  points.zipIdx.forM fun (point, index) => e.runPoint points.length point index
  Run.within "kill_processes" (e.machines.killProcesses .all)
  Run.info s!"finished {points.length} experiments"

/-- A batch breaks down before it does anything if its clients cannot be counted. -/
theorem runBatch_cases (e : Experiment) (w : World σ) :
    (e.config.clientCount < 2 ^ wordBits ∧ e.runBatch w = e.runTests e.config.points w) ∨
      (2 ^ wordBits ≤ e.config.clientCount ∧ e.config.points = [] ∧
        e.runBatch w = (.error .broken, w)) := by
  have hrun : e.runBatch w = (Run.lift e.config.tests >>= e.runTests) w := rfl
  rw [hrun]
  rcases e.config.tests_cases with ⟨hfits, htests, -⟩ | ⟨hlarge, htests, hnone⟩
  · rw [htests]
    exact Or.inl ⟨hfits, rfl⟩
  · rw [htests]
    exact Or.inr ⟨hlarge, hnone, rfl⟩

/-- When a batch is over, its summary has the lines of the tests that are counted, in order, and
nothing else is new. A batch that fails stopped at the first test that is not counted, or it had run
all of them and could not kill what was left. If its clients cannot be counted, it breaks down and
leaves the world as it was. -/
theorem runBatch_summary (e : Experiment) (h : SparesFile σ e.batchFile) (w : World σ) :
    let points := e.config.points
    let lines := e.batchLines points.length points.zipIdx w
    ∃ k ≤ points.length,
      (e.runBatch w).2.progress = { w.progress with position := w.progress.position + k } ∧
      (e.runBatch w).2.files.content e.batchFile =
        w.files.content e.batchFile ++ (lines.take k).flatMap lineBytes ∧
      ((e.runBatch w).1 = .ok () → k = points.length) ∧
      ∀ f, (e.runBatch w).1 = .error f →
        (∃ hk : k < points.length,
          f.trail.head? = some s!"run test {points[k].testId.text}") ∨
        (k = points.length ∧ f.trail.head? = some "kill_processes") ∨
        (2 ^ wordBits ≤ e.config.clientCount ∧ f = .broken ∧ (e.runBatch w).2 = w) := by
  intro points lines
  obtain ⟨-, hrun⟩ | ⟨hlarge, hnone, hrun⟩ := e.runBatch_cases w
  swap
  · rw [hrun]
    refine ⟨0, Nat.zero_le _, rfl, (List.append_nil _).symm, nofun, ?_⟩
    rintro - ⟨⟩
    exact Or.inr (Or.inr ⟨hlarge, rfl, rfl⟩)
  have hview := undisturbed_batchView h
  obtain ⟨k, hk, hloop, hresult⟩ := runPoints_cases h points.length points.zipIdx w
  have hlength : points.zipIdx.length = points.length := List.length_zipIdx
  rw [hrun, runTests, bind_apply]
  rcases hpoints : (points.zipIdx.forM fun (point, index) =>
    e.runPoint points.length point index : Run σ Unit) w with ⟨result, w'⟩
  rw [hpoints] at hloop hresult
  obtain ⟨hcontent, hprogress⟩ := Prod.mk.inj hloop
  refine ⟨k, hk.trans_eq hlength, ?_⟩
  rcases hresult with ⟨rfl, hall⟩ | ⟨f, hlt, rfl⟩
  · -- All tests are done, and killing processes does not touch the batch.
    have hkill := hview.keeps_killProcesses e.machines .all w'
    obtain ⟨hcontent', hprogress'⟩ := Prod.mk.inj hkill
    dsimp only
    rw [bind_apply, Run.within_apply]
    rcases hkilled : e.machines.killProcesses .all w' with ⟨f | a, w''⟩
    · rw [hkilled] at hcontent' hprogress'
      refine ⟨hprogress'.trans hprogress, hcontent'.trans hcontent, nofun, ?_⟩
      rintro - ⟨⟩
      exact Or.inr (Or.inl ⟨hall.trans hlength, rfl⟩)
    · rw [hkilled] at hcontent' hprogress'
      exact ⟨hprogress'.trans hprogress, hcontent'.trans hcontent,
        fun _ => hall.trans hlength, nofun⟩
  · refine ⟨hprogress, hcontent, nofun, ?_⟩
    rintro - ⟨⟩
    refine Or.inl ⟨hlt.trans_eq hlength, ?_⟩
    simp

theorem sparesFile_script (path : String) : SparesFile Script path := by
  intro shell shell' files files' line reply heq
  simp only [Shell.execute] at heq
  split_ifs at heq
  cases heq
  rfl

theorem runBatch_summary_silent :
    let e : Experiment := .ofConfig { servers := ["a"], clients := ["b"], expDir := "exp" }
    let w : World Script := .start ⟨[], true⟩ ⟨[(["exp"], .directory)]⟩ 1
    SparesFile Script e.batchFile ∧ (e.runBatch w).1 = .ok () ∧
      (e.runBatch w).2.progress.position = 1 ∧
      (e.runBatch w).2.files.content e.batchFile =
        (e.batchLines 1 e.config.points.zipIdx w).flatMap lineBytes := by
  intro e w
  have hspares := sparesFile_script e.batchFile
  have hok : (e.runBatch w).1 = .ok () := by
    have hisOk : (e.runBatch w).1.isOk = true := by decide +kernel
    rcases hrun : (e.runBatch w).1 with f | a
    · rw [hrun] at hisOk
      exact absurd hisOk Bool.false_ne_true
    · rfl
  obtain ⟨k, -, hprogress, hcontent, hall, -⟩ := runBatch_summary e hspares w
  have hk : k = 1 := hall hok
  subst hk
  refine ⟨hspares, hok, ?_, ?_⟩
  · rw [hprogress]
    rfl
  · have hempty : w.files.content e.batchFile = [] := by decide +kernel
    rw [hcontent, hempty, List.nil_append]
    rfl

end Experiment

end ClusterBench
