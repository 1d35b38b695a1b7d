import ClusterBench.Proofs.Plot.RunDirs
import ClusterBench.Proofs.Plot.SharedSnapshots

/-!
# Points of a metric

The points of a metric have different values of its parameter. Ids show the values of all parameters
but one: those of Kawkab do not show the clients of a machine. So the tests of two points have
different ids, and their results are kept apart from the file tree to the figure, unless the metric
varies the clients of a machine for Kawkab.
-/

namespace ClusterBench

/-- The only slashes behind the prefix of an id are those behind the id. -/
theorem TestId.text_eq_of_append_slash {a b : TestId} (hstem : a.prefixText = b.prefixText)
    {xs ys : List Char} (h : a.text.toList ++ '/' :: xs = b.text.toList ++ '/' :: ys) :
    a.text = b.text := by
  obtain ⟨tail, ha, hslash⟩ := exists_text_tail a
  obtain ⟨tail', hb, hslash'⟩ := exists_text_tail b
  rw [ha, hb, hstem, List.append_assoc, List.append_assoc] at h
  have htail := congrArg (List.takeWhile (· != '/')) (List.append_cancel_left h)
  have hbefore {tail rest : List Char} (h : '/' ∉ tail) :
      (tail ++ '/' :: rest).takeWhile (· != '/') = tail := by
    rw [List.takeWhile_append_of_pos (by grind), List.takeWhile_cons_of_neg (by simp),
      List.append_nil]
  rw [hbefore hslash, hbefore hslash'] at htail
  apply String.toList_inj.mp
  rw [ha, hb, hstem, htail]

namespace PlotConfig

/-- The results of two tests are kept apart: the files of their runs have different paths, which
lead to different places if no slash in a name leads elsewhere, they are loaded by different jobs,
and no entry is found for both. -/
structure KeepsApart (config : PlotConfig) (a b : TestId) : Prop where
  text : a.text ≠ b.text
  paths : ∀ run run' file file',
    config.runDir a run ++ "/" ++ file ≠ config.runDir b run' ++ "/" ++ file'
  places : '/' ∉ a.prefixText.toList → '/' ∉ b.prefixText.toList →
    ∀ (files : Files) run run' file file' location, IsName file → IsName file' →
      files.resolve (config.runDir a run ++ "/" ++ file) = .ok location →
        files.resolve (config.runDir b run' ++ "/" ++ file') ≠ .ok location
  jobs : ∀ file file' fromHistogram fromHistogram',
    ¬ LoadJob.same ⟨a, file, fromHistogram⟩ ⟨b, file', fromHistogram'⟩
  entries : ∀ (db : Database) file file' entry,
    db.get? a file = some entry → db.get? b file' ≠ some entry

variable {config : PlotConfig} {metric : Metric} {p q : Point}

theorem keepsApart_of_text_ne {a b : TestId} (hsystem : a.system = b.system)
    (hstem : a.prefixText = b.prefixText) (h : a.text ≠ b.text) : config.KeepsApart a b where
  text := h
  paths := by
    intro run run' file file' heq
    have htoList (id : TestId) (run : ℕ) (file : String) :
        (config.runDir id run ++ "/" ++ file).toList =
          (config.resultsDir ++ "/" ++ id.system.dirName ++ "/").toList ++
            (id.text.toList ++ '/' :: s!"run_{run}/{file}".toList) := by
      simp [runDir]
    have hlist := congrArg String.toList heq
    rw [htoList, htoList, hsystem] at hlist
    exact h (TestId.text_eq_of_append_slash hstem (List.append_cancel_left hlist))
  places := by
    intro ha hb files run run' file file' location hfile hfile' hplace hplace'
    obtain ⟨base, rfl⟩ := resolve_runFile ha hfile hplace
    obtain ⟨base', heq⟩ := resolve_runFile hb hfile' hplace'
    simp only [List.cons.injEq] at heq
    exact h heq.2.2.1
  jobs := by
    intro file file' fromHistogram fromHistogram' hsame
    exact h (LoadJob.sameTest_iff.mp (LoadJob.same_iff.mp hsame).1).2
  entries := by
    intro db file file' entry ha hb
    have hkey {id : TestId} {file : Option String} (hget : db.get? id file = some entry) :
        entry.key = id.text := by
      have hfound := List.find?_some hget
      rw [Bool.and_eq_true, beq_iff_eq] at hfound
      exact hfound.1
    exact h ((hkey ha).symm.trans (hkey hb))

/-- Two points give the tests of a metric the same parameters, but for the one that it varies. -/
theorem paramAt_eq_iff (hclients : p.numClients = q.numClients) (hval : p.val ≠ q.val)
    (param : Param) :
    config.paramAt metric p param = config.paramAt metric q param ↔ param ≠ metric.param := by
  unfold paramAt
  split_ifs with hvaried
  · exact iff_of_false hval (not_not.mpr hvaried)
  · rw [hclients]
    exact iff_of_true rfl hvaried

theorem testId_text_eq_iff (hstem : p.prefixText = q.prefixText)
    (hclients : p.numClients = q.numClients) (hval : p.val ≠ q.val) (x y : Binary64) :
    (config.testId metric p x).text = (config.testId metric q y).text ↔
      metric.system = .kawkab ∧ metric.param = .clientsPerMachine ∧ x.general = y.general := by
  rw [testId_eq, testId_eq, TestId.text_eq_iff]
  simp only [paramAt_eq_iff hclients hval, hstem, true_and]
  cases hsystem : metric.system <;> cases hparam : metric.param <;>
    simp [TestId.iatText]

/-- Points with the same prefix and the same number of clients, but with different values, are
tests whose results are kept apart, at whatever inter-arrival times. The exception is a metric that
varies the clients of a machine for Kawkab: there only the inter-arrival times, with six digits,
keep them apart. -/
theorem keepsApart_iff_of_val_ne (hstem : p.prefixText = q.prefixText)
    (hclients : p.numClients = q.numClients) (hval : p.val ≠ q.val) (x y : Binary64) :
    config.KeepsApart (config.testId metric p x) (config.testId metric q y) ↔
      ¬ (metric.system = .kawkab ∧ metric.param = .clientsPerMachine ∧
        x.general = y.general) := by
  rw [← testId_text_eq_iff hstem hclients hval x y]
  constructor
  · exact KeepsApart.text
  · apply keepsApart_of_text_ne
    · rw [testId_eq, testId_eq]
    · rw [testId_eq, testId_eq]
      exact hstem

def clientsPoint (val : ℕ) : Point := ⟨"w.json", "rw", val, none, [2.0], false⟩

def clientsMetric (system : DataStore) : Metric :=
  ⟨system, "m", .clientsPerMachine, [clientsPoint 10, clientsPoint 20]⟩

theorem keepsApart_clientsOfBtrdb :
    let p := clientsPoint 10
    let q := clientsPoint 20
    p.prefixText = q.prefixText ∧ p.numClients = q.numClients ∧ p.val ≠ q.val ∧
      KeepsApart {} (testId {} (clientsMetric .btrdb) p 2.0)
        (testId {} (clientsMetric .btrdb) q 2.0) := by
  intro p q
  have hstem : p.prefixText = q.prefixText := Eq.refl "rw"
  have hclients : p.numClients = q.numClients := Eq.refl none
  have hval : p.val ≠ q.val := by decide
  refine ⟨hstem, hclients, hval,
    (keepsApart_iff_of_val_ne hstem hclients hval 2.0 2.0).mpr ?_⟩
  rintro ⟨hsystem, -⟩
  cases hsystem

/-- Ids of Kawkab do not show the clients of a machine. -/
theorem testId_text_clientsOfKawkab :
    let p := clientsPoint 10
    let q := clientsPoint 20
    p ∈ (clientsMetric .kawkab).points ∧ q ∈ (clientsMetric .kawkab).points ∧
      p.prefixText = q.prefixText ∧ p.numClients = q.numClients ∧ p.val ≠ q.val ∧
      (testId {} (clientsMetric .kawkab) p 2.0).text =
        (testId {} (clientsMetric .kawkab) q 2.0).text :=
  ⟨List.mem_cons_self, List.mem_cons_of_mem _ List.mem_cons_self, rfl, rfl, by decide, rfl⟩

end PlotConfig

end ClusterBench
