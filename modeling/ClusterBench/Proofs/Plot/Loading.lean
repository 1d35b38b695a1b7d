import ClusterBench.Plot.Series
import ClusterBench.Proofs.Computations
import ClusterBench.Proofs.FirstOccurrences
import ClusterBench.Proofs.TestId.Text

/-!
# Which results a figure draws

Results are loaded for a test, a result file and a choice of latencies, and looked up by the test
and the result file alone. Where figures ask for both kinds of latencies of one result file, all of
them get the kind that was asked for last when it was asked for the first time.
-/

namespace ClusterBench

namespace LoadJob

def asked (config : PlotConfig) : List LoadJob :=
  config.figures.flatMap fun figure => figure.metrics.flatMap (ofMetric config)

def sameTest (a b : LoadJob) : Bool := a.resFile == b.resFile && a.testId.text == b.testId.text

theorem sameTest_iff {a b : LoadJob} :
    a.sameTest b ↔ a.resFile = b.resFile ∧ a.testId.text = b.testId.text := by
  simp only [sameTest, Bool.and_eq_true, beq_iff_eq]

theorem same_iff {a b : LoadJob} :
    a.same b ↔ a.sameTest b ∧ a.fromHistogram = b.fromHistogram := by
  simp only [same, sameTest, Bool.and_eq_true, beq_iff_eq]
  tauto

theorem sameTest_trans {a b c : LoadJob} (hab : a.sameTest b) : a.sameTest c = b.sameTest c := by
  obtain ⟨hfile, htext⟩ := sameTest_iff.mp hab
  rw [sameTest, sameTest, hfile, htext]

theorem sameTest_comm {a b : LoadJob} : a.sameTest b = b.sameTest a := by
  rw [sameTest, sameTest, BEq.comm (a := a.resFile), BEq.comm (a := a.testId.text)]

/-- What tells jobs apart. -/
def shown (job : LoadJob) : String × String × Bool :=
  (job.testId.text, job.resFile, job.fromHistogram)

theorem same_iff_shown (a b : LoadJob) : a.same b ↔ a.shown = b.shown := by
  simp only [same, shown, Bool.and_eq_true, beq_iff_eq, Prod.mk.injEq]
  tauto

theorem distinct_eq (jobs : List LoadJob) : distinct jobs = firstOccurrences shown jobs :=
  foldl_eq_firstOccurrences same_iff_shown jobs

theorem distinct_concat (jobs : List LoadJob) (job : LoadJob) :
    distinct (jobs ++ [job]) =
      if (distinct jobs).any (·.same job) then distinct jobs else distinct jobs ++ [job] := by
  simp [distinct, List.foldl_append]

/-- The first job of a list, and the first one with other latencies. -/
def firstOfEach : List LoadJob → List LoadJob
  | [] => []
  | first :: others =>
    first :: (others.find? fun other => other.fromHistogram != first.fromHistogram).toList

theorem firstOfEach_concat (jobs : List LoadJob) (job : LoadJob) :
    firstOfEach (jobs ++ [job]) =
      if (firstOfEach jobs).any (·.fromHistogram == job.fromHistogram) then firstOfEach jobs
      else firstOfEach jobs ++ [job] := by
  cases jobs with
  | nil => rfl
  | cons first others =>
    simp only [firstOfEach, List.cons_append, List.find?_append, List.any_cons]
    rcases Option.eq_none_or_eq_some
      (others.find? fun other => other.fromHistogram != first.fromHistogram) with
      hfind | ⟨other, hfind⟩
    · by_cases hflag : first.fromHistogram = job.fromHistogram
      · simp [hflag]
      · simp [hfind, hflag, Ne.symm hflag]
    · have hother : other.fromHistogram = !first.fromHistogram := by
        simpa [Bool.eq_not] using List.find?_some hfind
      simp only [hfind, Option.some_or, Option.toList_some, List.any_cons, hother]
      cases first.fromHistogram <;> cases job.fromHistogram <;> rfl

/-- Of all jobs for a test and a result file, the first one of each kind is loaded. -/
theorem filter_distinct (jobs : List LoadJob) (wanted : LoadJob) :
    (distinct jobs).filter (·.sameTest wanted) =
      firstOfEach (jobs.filter (·.sameTest wanted)) := by
  induction jobs using List.reverseRecOn with
  | nil => rfl
  | append_singleton jobs job ih =>
    rw [distinct_concat, List.filter_append]
    by_cases hjob : job.sameTest wanted
    · have hany : (distinct jobs).any (·.same job) =
          ((distinct jobs).filter (·.sameTest wanted)).any
            (·.fromHistogram == job.fromHistogram) := by
        rw [List.any_filter]
        congr 1
        funext kept
        rw [Bool.eq_iff_iff, same_iff, Bool.and_eq_true, beq_iff_eq, sameTest_comm,
          sameTest_trans hjob, sameTest_comm]
      rw [List.filter_singleton, hjob, cond_true, firstOfEach_concat, ← ih, hany]
      split_ifs
      · rfl
      · rw [List.filter_append, List.filter_singleton, hjob, cond_true]
    · rw [Bool.not_eq_true] at hjob
      rw [List.filter_singleton, hjob, cond_false, List.append_nil, ← ih]
      split_ifs
      · rfl
      · rw [List.filter_append, List.filter_singleton, hjob, cond_false, List.append_nil]

/-- The last job that is loaded has the latencies of a given one exactly if all jobs have them, or
if the first one has others. -/
theorem fromHistogram_of_firstOfEach {jobs before : List LoadJob} {loaded : LoadJob}
    (h : firstOfEach jobs = before ++ [loaded]) {b : Bool}
    (hb : ∃ job ∈ jobs, job.fromHistogram = b) :
    loaded.fromHistogram = b ↔ (∀ job ∈ jobs, job.fromHistogram = b) ∨
      ∃ first ∈ jobs.head?, first.fromHistogram ≠ b := by
  cases jobs with
  | nil => simp at hb
  | cons first others =>
    have hlast := congrArg List.getLast? h
    rw [List.getLast?_concat, firstOfEach] at hlast
    rcases Option.eq_none_or_eq_some
      (others.find? fun other => other.fromHistogram != first.fromHistogram) with
      hfind | ⟨other, hfind⟩
    · have hall : ∀ job ∈ first :: others, job.fromHistogram = first.fromHistogram := by
        simpa using List.find?_eq_none.mp hfind
      obtain ⟨job, hjob, rfl⟩ := hb
      have hloaded : first = loaded := by simpa [hfind] using hlast
      rw [← hloaded, hall job hjob]
      exact iff_of_true rfl (Or.inl hall)
    · have hother : other.fromHistogram = !first.fromHistogram := by
        simpa [Bool.eq_not] using List.find?_some hfind
      have hmem : other ∈ others := List.mem_of_find?_eq_some hfind
      have hloaded : other = loaded := by simpa [hfind] using hlast
      rw [← hloaded, hother]
      constructor
      · intro hflag
        refine Or.inr ⟨first, rfl, ?_⟩
        rw [← hflag]
        exact (Bool.not_ne_self _).symm
      · rintro (hall | ⟨f, hf, hflag⟩)
        · have h₁ := hall first List.mem_cons_self
          have h₂ := hall other (List.mem_cons_of_mem _ hmem)
          rw [hother] at h₂
          exact h₂
        · cases hf
          exact (Bool.eq_not.mpr hflag.symm).symm

end LoadJob

/-- What is loaded for a test depends on what its id shows. -/
theorem RunData.load_congr (config : PlotConfig) {a b : LoadJob} (h : a.same b) (run : ℕ) :
    RunData.load config a run = RunData.load config b run := by
  obtain ⟨htest, hflag⟩ := LoadJob.same_iff.mp h
  obtain ⟨hfile, htext⟩ := LoadJob.sameTest_iff.mp htest
  have hsystem := (TestId.text_eq_iff.mp htext).1
  have hdir : config.runDir a.testId run = config.runDir b.testId run := by
    rw [PlotConfig.runDir, PlotConfig.runDir, hsystem, htext]
  have hpath : a.resultPath config run = b.resultPath config run := by
    rw [LoadJob.resultPath, LoadJob.resultPath, hdir, hfile]
  have hsnapshot : a.snapshotPath config run = b.snapshotPath config run := by
    rw [LoadJob.snapshotPath, LoadJob.snapshotPath, hpath, LoadJob.snapshotSuffix,
      LoadJob.snapshotSuffix, hflag]
  have hread : RunData.readRun config a run = RunData.readRun config b run := by
    unfold RunData.readRun
    rw [hpath, hsystem, hflag, hdir]
  unfold RunData.load
  rw [hsnapshot, hread]

namespace Entry

variable {config : PlotConfig} {job : LoadJob} {files : Files} {entry : Entry}

def loadRuns (config : PlotConfig) (job : LoadJob) : Filing (List (RunData Binary64)) :=
  config.testRuns.mapM fun run =>
    Filing.within s!"load run {run} of {job.testId.text}" (RunData.load config job run)

theorem loadRuns_congr {a b : LoadJob} (h : a.same b) : loadRuns config a = loadRuns config b := by
  have htext := (LoadJob.sameTest_iff.mp (LoadJob.same_iff.mp h).1).2
  have hrun : ∀ run, Filing.within s!"load run {run} of {a.testId.text}"
      (RunData.load config a run) =
        Filing.within s!"load run {run} of {b.testId.text}" (RunData.load config b run) := by
    intro run
    rw [htext, RunData.load_congr config h run]
  exact congrArg (fun load => config.testRuns.mapM load) (funext hrun)

theorem load_eq (config : PlotConfig) (job : LoadJob) : load config job = do
    let runs ← loadRuns config job
    return ofRuns job.testId job.resFile runs := rfl

theorem load_eq_ok : (load config job files).1 = .ok entry ↔
    ∃ runs, (loadRuns config job files).1 = .ok runs ∧
      entry = ofRuns job.testId job.resFile runs := by
  rw [load_eq, bind_apply]
  rcases loadRuns config job files with ⟨f | runs, files⟩
  · simp
  · simp [pure_apply, eq_comm]

end Entry

namespace Database

variable (config : PlotConfig)

theorem loadAll_cons (job : LoadJob) (jobs : List LoadJob) (files : Files) :
    loadAll config (job :: jobs) files =
      ((Entry.load config job files).1 :: (loadAll config jobs (Entry.load config job files).2).1,
        (loadAll config jobs (Entry.load config job files).2).2) := rfl

theorem length_loadAll (jobs : List LoadJob) (files : Files) :
    (loadAll config jobs files).1.length = jobs.length := by
  induction jobs generalizing files with
  | nil => rfl
  | cons job jobs ih => rw [loadAll_cons, List.length_cons, List.length_cons, ih]

theorem loadAll_append (before after : List LoadJob) (files : Files) :
    (loadAll config (before ++ after) files).1 = (loadAll config before files).1 ++
      (loadAll config after (loadAll config before files).2).1 := by
  induction before generalizing files with
  | nil => rfl
  | cons job before ih =>
    rw [List.cons_append, loadAll_cons, loadAll_cons, ih]
    rfl

theorem load_eq_ok {config : PlotConfig} {files files' : Files} {db : Database}
    (h : load config files = (.ok db, files')) :
    (loadAll config (LoadJob.ofConfig config) files).1 = db.map .ok := by
  unfold load at h
  generalize loadAll config (LoadJob.ofConfig config) files = loaded at h ⊢
  obtain ⟨entries, files⟩ := loaded
  cases hentries : entries.mapM id with
  | error f =>
    simp only [hentries, inContext] at h
    cases h
  | ok values =>
    simp only [hentries, inContext] at h
    cases h
    exact mapM_id_eq_ok hentries

/-- Every entry holds the runs of one of the jobs. -/
theorem exists_runs_of_mem {config : PlotConfig} {jobs : List LoadJob} {files : Files}
    {entries : Database} (h : (loadAll config jobs files).1 = entries.map .ok) {entry : Entry}
    (hentry : entry ∈ entries) : ∃ job ∈ jobs, ∃ before runs,
      (Entry.loadRuns config job before).1 = .ok runs ∧
        entry = Entry.ofRuns job.testId job.resFile runs := by
  induction jobs generalizing files entries with
  | nil =>
    rw [List.map_eq_nil_iff.mp h.symm] at hentry
    exact absurd hentry List.not_mem_nil
  | cons job jobs ih =>
    rw [loadAll_cons, eq_comm, List.map_eq_cons_iff] at h
    obtain ⟨first, rest, rfl, hfirst, hrest⟩ := h
    rcases List.mem_cons.mp hentry with rfl | hmem
    · exact ⟨job, List.mem_cons_self, files, Entry.load_eq_ok.mp hfirst.symm⟩
    · obtain ⟨job, hjob, hruns⟩ := ih hrest.symm hmem
      exact ⟨job, List.mem_cons_of_mem _ hjob, hruns⟩

theorem exists_job_of_mem {config : PlotConfig} {jobs : List LoadJob} {files : Files}
    {entries : Database} (h : (loadAll config jobs files).1 = entries.map .ok) {entry : Entry}
    (hentry : entry ∈ entries) :
    ∃ job ∈ jobs, entry.key = job.testId.text ∧ entry.resFile = job.resFile := by
  obtain ⟨job, hjob, before, runs, -, rfl⟩ := exists_runs_of_mem h hentry
  exact ⟨job, hjob, rfl, rfl⟩

/-- A lookup gives the entry of the last job for the test and the result file. -/
theorem get?_of_load {config : PlotConfig} {files : Files} {db : Database}
    {before after : List LoadJob} {loaded wanted : LoadJob}
    (h : (loadAll config (before ++ loaded :: after) files).1 = db.map .ok)
    (hloaded : loaded.sameTest wanted) (hafter : ∀ job ∈ after, ¬ job.sameTest wanted) :
    ∃ entry, db[before.length]? = some entry ∧
      db.get? wanted.testId (some wanted.resFile) = some entry ∧
      (Entry.load config loaded (loadAll config before files).2).1 = .ok entry := by
  rw [loadAll_append, loadAll_cons, eq_comm, List.map_eq_append_iff] at h
  obtain ⟨first, rest, rfl, hfirst, hrest⟩ := h
  obtain ⟨entry, last, rfl, hentry, hlast⟩ := List.map_eq_cons_iff.mp hrest
  have hlength : first.length = before.length := by
    rw [← length_loadAll config before files, ← hfirst, List.length_map]
  obtain ⟨runs, -, hruns⟩ := Entry.load_eq_ok.mp hentry.symm
  simp only [LoadJob.sameTest_iff] at hloaded hafter
  refine ⟨entry, by simp [← hlength], ?_, hentry.symm⟩
  rw [get?, List.find?_eq_some_iff_append]
  refine ⟨?_, last.reverse, first.reverse, by simp, ?_⟩
  · rw [hruns]
    simp [Entry.ofRuns, matchesFilter, hloaded]
  · intro other hother
    obtain ⟨job, hjob, hkey, hfile⟩ := exists_job_of_mem hlast.symm (List.mem_reverse.mp hother)
    have hne := hafter job hjob
    rw [Bool.not_eq_true', Bool.and_eq_false_iff, matchesFilter, hkey, hfile]
    simp only [beq_eq_false_iff_ne, ne_eq]
    tauto

end Database

theorem exists_last_match {α : Type} {p : α → Bool} {as : List α} (h : ∃ a ∈ as, p a) :
    ∃ before a after, as = before ++ a :: after ∧ p a ∧ ∀ b ∈ after, ¬ p b := by
  induction as using List.reverseRecOn with
  | nil => simp at h
  | append_singleton as a ih =>
    by_cases ha : p a
    · exact ⟨as, a, [], rfl, ha, by simp⟩
    · have hmem : ∃ b ∈ as, p b := by
        obtain ⟨b, hb, hp⟩ := h
        rcases List.mem_append.mp hb with hb | hb
        · exact ⟨b, hb, hp⟩
        · rw [List.mem_singleton.mp hb] at hp
          exact absurd hp ha
      obtain ⟨before, b, after, rfl, hb, hafter⟩ := ih hmem
      refine ⟨before, b, after ++ [a], by simp, hb, ?_⟩
      intro c hc
      rcases List.mem_append.mp hc with hc | hc
      · exact hafter c hc
      · rw [List.mem_singleton.mp hc]
        exact ha

namespace LoadJob

theorem mem_asked {config : PlotConfig} {figure : Figure} {metric : Metric} {point : Point}
    {iat : Binary64} (hfigure : figure ∈ config.figures) (hmetric : metric ∈ figure.metrics)
    (hpoint : point ∈ metric.points) (hiat : iat ∈ point.iats) :
    ⟨config.testId metric point iat, point.resFile, point.fromHistogram⟩ ∈ asked config :=
  List.mem_flatMap_of_mem hfigure (List.mem_flatMap_of_mem hmetric
    (List.mem_flatMap_of_mem hpoint (List.mem_map_of_mem hiat)))

/-- All jobs for a test and a result file want the same latencies, or the first one wants others. -/
def DrawnAsAsked (config : PlotConfig) (job : LoadJob) : Prop :=
  (∀ other ∈ asked config, other.sameTest job → other.fromHistogram = job.fromHistogram) ∨
    ∃ first, (asked config).find? (·.sameTest job) = some first ∧
      first.fromHistogram ≠ job.fromHistogram

theorem exists_loaded {config : PlotConfig} {job : LoadJob} (hjob : job ∈ asked config) :
    ∃ before loaded after, ofConfig config = before ++ loaded :: after ∧
      loaded.sameTest job ∧ (∀ other ∈ after, ¬ other.sameTest job) ∧
      (loaded.fromHistogram = job.fromHistogram ↔ job.DrawnAsAsked config) := by
  have hself : job.sameTest job := by simp [sameTest]
  have hmem : job ∈ (asked config).filter (·.sameTest job) := List.mem_filter.mpr ⟨hjob, hself⟩
  have hfilter : (ofConfig config).filter (·.sameTest job) =
      firstOfEach ((asked config).filter (·.sameTest job)) := filter_distinct _ _
  have hexists : ∃ loaded ∈ ofConfig config, loaded.sameTest job := by
    obtain ⟨first, others, hcons⟩ := List.exists_cons_of_ne_nil (List.ne_nil_of_mem hmem)
    have hfirst : first ∈ (ofConfig config).filter (·.sameTest job) := by
      rw [hfilter, hcons]
      exact List.mem_cons_self
    exact ⟨first, List.mem_filter.mp hfirst⟩
  obtain ⟨before, loaded, after, heq, hloaded, hafter⟩ := exists_last_match hexists
  refine ⟨before, loaded, after, heq, hloaded, hafter, ?_⟩
  have hlast : firstOfEach ((asked config).filter (·.sameTest job)) =
      before.filter (·.sameTest job) ++ [loaded] := by
    rw [← hfilter, heq, List.filter_append, List.filter_cons, if_pos hloaded,
      List.filter_eq_nil_iff.mpr hafter]
  rw [fromHistogram_of_firstOfEach hlast ⟨job, hmem, rfl⟩, DrawnAsAsked, List.head?_filter]
  simp only [List.mem_filter, and_imp, Option.mem_def]

end LoadJob

/-- What a figure draws for a point is an entry that is loaded for this test and this result file.
Its latencies are the ones that the point asks for exactly if no other kind is asked for or if the
other kind is asked for first. -/
theorem Database.figure_entry {config : PlotConfig} {files files' : Files} {db : Database}
    (hload : load config files = (.ok db, files')) {figure : Figure} {metric : Metric}
    {point : Point} {iat : Binary64} (hfigure : figure ∈ config.figures)
    (hmetric : metric ∈ figure.metrics) (hpoint : point ∈ metric.points) (hiat : iat ∈ point.iats) :
    let job : LoadJob := ⟨config.testId metric point iat, point.resFile, point.fromHistogram⟩
    ∃ before loaded after entry, LoadJob.ofConfig config = before ++ loaded :: after ∧
      db[before.length]? = some entry ∧ db.get? job.testId (some job.resFile) = some entry ∧
      Series.summaryOf db config metric point iat = .ok (Summary.ofRuns entry.runs) ∧
      (Entry.load config { job with fromHistogram := loaded.fromHistogram }
        (loadAll config before files).2).1 = .ok { entry with testId := job.testId } ∧
      (loaded.fromHistogram = job.fromHistogram ↔ job.DrawnAsAsked config) := by
  intro job
  obtain ⟨before, loaded, after, heq, hloaded, hafter, hiff⟩ :=
    LoadJob.exists_loaded (LoadJob.mem_asked hfigure hmetric hpoint hiat)
  have hall := load_eq_ok hload
  rw [heq] at hall
  obtain ⟨entry, hindex, hget, hentry⟩ := get?_of_load hall hloaded hafter
  obtain ⟨runs, hruns, hofRuns⟩ := Entry.load_eq_ok.mp hentry
  have hsame : loaded.same { job with fromHistogram := loaded.fromHistogram } :=
    LoadJob.same_iff.mpr ⟨hloaded, rfl⟩
  refine ⟨before, loaded, after, entry, heq, hindex, hget, ?_, ?_, hiff⟩
  · unfold Series.summaryOf
    dsimp only
    rw [hget, hofRuns]
    rfl
  · apply Entry.load_eq_ok.mpr
    refine ⟨runs, by rw [← Entry.loadRuns_congr hsame]; exact hruns, ?_⟩
    obtain ⟨hfile, htext⟩ := LoadJob.sameTest_iff.mp hloaded
    rw [hofRuns, Entry.ofRuns, Entry.ofRuns, hfile, htext]

/-- Two figures that ask for one result file, the first one with latencies from histograms. -/
def sharedPoint (fromHistogram : Bool) : Point := ⟨"w.json", "rw", 1, none, [.zero], fromHistogram⟩

def sharedMetric (fromHistogram : Bool) : Metric :=
  ⟨.kawkab, "m", .batchSize, [sharedPoint fromHistogram]⟩

def bothKinds : PlotConfig where
  resultsDir := "r"
  figures := [.latencyThroughput "a" [sharedMetric true] Latency.all false none,
    .throughputBars "b" [sharedMetric false] "x" false]

def bothSnapshots : Files :=
  let location := ["run_1", "rw-nc200-bs1-rs16-nf1-wr100-iat0", "kawkab", "r"]
  ⟨[(["r"], .directory), (["kawkab", "r"], .directory), (location.tail, .directory),
    (location, .directory),
    ("w.json_run_data_snapshot.bincode.gz" :: location, .packed (List.replicate 72 0)),
    ("w.json_hist_run_data_snapshot.bincode.gz" :: location, .packed (List.replicate 72 1))]⟩

theorem exists_load_bothKinds :
    ∃ db files', Database.load bothKinds bothSnapshots = (.ok db, files') := by
  have hok : (Database.load bothKinds bothSnapshots).1.isOk = true := by decide +kernel
  rcases hload : Database.load bothKinds bothSnapshots with ⟨f | db, files'⟩
  · rw [hload] at hok
    exact absurd hok Bool.false_ne_true
  · exact ⟨db, files', rfl⟩

theorem figure_entry_bothKinds :
    ∃ db files' before loaded after entry,
      Database.load bothKinds bothSnapshots = (.ok db, files') ∧
      LoadJob.ofConfig bothKinds = before ++ loaded :: after ∧
      db[before.length]? = some entry ∧
      Series.summaryOf db bothKinds (sharedMetric true) (sharedPoint true) .zero =
        .ok (Summary.ofRuns entry.runs) ∧
      (sharedPoint true).fromHistogram = true ∧ loaded.fromHistogram = false := by
  obtain ⟨db, files', hload⟩ := exists_load_bothKinds
  have hfigure (b : Bool) : ∃ figure ∈ bothKinds.figures, sharedMetric b ∈ figure.metrics := by
    cases b
    · exact ⟨_, List.mem_cons_of_mem _ List.mem_cons_self, List.mem_cons_self⟩
    · exact ⟨_, List.mem_cons_self, List.mem_cons_self⟩
  have hpoint (b : Bool) : sharedPoint b ∈ (sharedMetric b).points := List.mem_cons_self
  have hiat (b : Bool) : Binary64.zero ∈ (sharedPoint b).iats := List.mem_cons_self
  obtain ⟨figure, hmem, hmetric⟩ := hfigure true
  obtain ⟨before, loaded, after, entry, heq, hindex, -, hsummary, -, hiff⟩ :=
    Database.figure_entry hload hmem hmetric (hpoint true) (hiat true)
  refine ⟨db, files', before, loaded, after, entry, hload, heq, hindex, hsummary, rfl, ?_⟩
  rw [← Bool.not_eq_true]
  intro hflag
  rcases hiff.mp hflag with hall | ⟨first, hfirst, hother⟩
  · obtain ⟨other, hmem, hmetric⟩ := hfigure false
    have hfalse := hall _ (LoadJob.mem_asked hmem hmetric (hpoint false) (hiat false))
      (by decide +kernel)
    exact Bool.false_ne_true hfalse
  · have hself : (LoadJob.asked bothKinds).head? = some first := by
      rw [← hfirst]
      exact (List.find?_cons_of_pos (by decide +kernel)).symm
    cases hself
    exact hother rfl

end ClusterBench
