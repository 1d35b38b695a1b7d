import ClusterBench.Plot.Config
import ClusterBench.Proofs.Experiment.TestDirs

/-!
# Where figures look for results

A figure reads the results of a test from the directory in which the test has collected them exactly
if the two mean the same test: the same parameters as far as an id shows them, and the same run.
-/

namespace ClusterBench.PlotConfig

variable (config : PlotConfig) (metric : Metric) (point : Point)

/-- The value of a parameter of the test of a point. The point sets the parameter of its metric and
may set the number of clients; the defaults set the rest. -/
def paramAt (param : Param) : ℕ :=
  if param = metric.param then point.val
  else
    match param with
    | .batchSize => config.defaults.batchSize
    | .writeRatio => config.defaults.writeRatio
    | .recordSize => config.defaults.recordSize
    | .numClients => point.numClients.getD config.defaults.numClients
    | .clientsPerMachine => config.defaults.clientsPerMachine
    | .filesPerClient => config.defaults.filesPerClient

theorem testId_eq (iat : Binary64) : config.testId metric point iat =
    { system := metric.system
      prefixText := point.prefixText
      numClients := config.paramAt metric point .numClients
      clientsPerMachine := config.paramAt metric point .clientsPerMachine
      batchSize := config.paramAt metric point .batchSize
      recordSize := config.paramAt metric point .recordSize
      filesPerClient := config.paramAt metric point .filesPerClient
      writeRatio := config.paramAt metric point .writeRatio
      iat } := by
  unfold testId paramAt
  cases metric.param <;> rfl

theorem runDir_of_kawkab {id : TestId} (h : id.system = .kawkab) (run : ℕ) :
    config.runDir id run = TestPoint.runPath (config.resultsDir ++ "/kawkab") id.text run := by
  rw [runDir, h]
  simp [DataStore.dirName, TestPoint.runPath, String.append_assoc]

theorem system_of_runDir_eq {id : TestId} {run : ℕ} {p : TestPoint}
    (h : config.runDir id run = p.testDir (config.resultsDir ++ "/kawkab")) :
    id.system = .kawkab := by
  cases hsystem : id.system with
  | kawkab => rfl
  | btrdb =>
    have hlist := congrArg String.toList h
    simp [runDir, hsystem, DataStore.dirName, TestPoint.testDir] at hlist

/-- The directory that a figure reads is the one of a test exactly if the figure means a test of
Kawkab with its prefix, its run and its parameters, the inter-arrival time cut to six digits. The
number of clients of a machine does not matter: ids of Kawkab do not show it. -/
theorem runDir_eq_testDir_iff (iat : Binary64) (run : ℕ) (p : TestPoint) :
    config.runDir (config.testId metric point iat) run =
        p.testDir (config.resultsDir ++ "/kawkab") ↔
      metric.system = .kawkab ∧ point.prefixText = s!"{p.testType}-{p.testPrefix}" ∧
        run = p.testRun ∧ iat.general = p.iat.general ∧
        config.paramAt metric point .numClients = p.totalClients ∧
        config.paramAt metric point .batchSize = p.batchSize ∧
        config.paramAt metric point .recordSize = p.recordSize ∧
        config.paramAt metric point .filesPerClient = p.filesPerClient ∧
        config.paramAt metric point .writeRatio = p.writeRatio := by
  rw [testId_eq]
  by_cases hsystem : metric.system = .kawkab
  · rw [runDir_of_kawkab config hsystem, TestPoint.testDir_eq_runPath, TestPoint.runPath_eq_iff,
      TestId.text_eq_iff]
    simp only [TestPoint.testId, TestId.iatText, hsystem, reduceCtorEq, false_implies, true_and]
    tauto
  · exact iff_of_false (fun h => hsystem (system_of_runDir_eq config h)) fun h => hsystem h.1

end ClusterBench.PlotConfig
