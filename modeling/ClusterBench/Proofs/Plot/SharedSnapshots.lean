import ClusterBench.Proofs.Plot.Snapshots

/-!
# Runs that share a snapshot

A run whose snapshot is not there when a load begins may find one when its turn comes: the one of a
run whose snapshot has the same place. So what is loaded for a run is what reading gives for the
first run that shares its snapshot, in the order in which the runs are loaded.
-/

namespace ClusterBench

def LoadJob.steps (config : PlotConfig) (jobs : List LoadJob) : List (LoadJob × ℕ) :=
  jobs.flatMap fun job => config.testRuns.map fun run => (job, run)

namespace RunData

def writer? (config : PlotConfig) (start : Files) (steps : List (LoadJob × ℕ))
    (location : Location) : Option (LoadJob × ℕ) :=
  steps.find? fun step => start.resolve (step.1.snapshotPath config step.2) = .ok location

/-- The first run of some whose snapshot has the same place as the one of a given run. -/
def FirstSharer (config : PlotConfig) (start : Files) (steps : List (LoadJob × ℕ))
    (step first : LoadJob × ℕ) : Prop :=
  ∃ location, start.resolve (step.1.snapshotPath config step.2) = .ok location ∧
    writer? config start steps location = some first

/-- Reading gives these results for the first run that shares the snapshot of a given one. -/
def FirstReading (config : PlotConfig) (start : Files) (steps : List (LoadJob × ℕ))
    (step : LoadJob × ℕ) (r : RunData Binary64) : Prop :=
  ∃ first, FirstSharer config start steps step first ∧
    (readRun config first.1 first.2 start).1 = .ok r

variable {config : PlotConfig} {start files files' : Files} {done more : List (LoadJob × ℕ)}
  {job : LoadJob} {run : ℕ} {r : RunData Binary64}

theorem writer?_append (location : Location) : writer? config start (done ++ more) location =
    (writer? config start done location).or (writer? config start more location) :=
  List.find?_append

theorem FirstReading.append {step : LoadJob × ℕ} (h : FirstReading config start done step r)
    (more : List (LoadJob × ℕ)) : FirstReading config start (done ++ more) step r := by
  obtain ⟨first, ⟨location, hplace, hfirst⟩, hread⟩ := h
  exact ⟨first, ⟨location, hplace, by rw [writer?_append, hfirst]; rfl⟩, hread⟩

/-- Some runs have been loaded: where one of them has its snapshot, there is the snapshot of the
first one, and everything else is as it was. -/
structure Filed (config : PlotConfig) (start : Files) (done : List (LoadJob × ℕ))
    (files : Files) : Prop where
  kept : ∀ location, writer? config start done location = none →
    files.entry? location = start.entry? location
  held : ∀ location first, writer? config start done location = some first →
    start.entry? location = none ∧ ∃ r, (readRun config first.1 first.2 start).1 = .ok r ∧
      files.entry? location = some (.packed r.snapshot)

namespace Filed

theorem nil (config : PlotConfig) (start : Files) : Filed config start [] start :=
  ⟨fun _ _ => rfl, nofun⟩

theorem grown (h : Filed config start done files) : start.Extends files := by
  intro location
  cases hwriter : writer? config start done location with
  | none => exact Or.inl (h.kept location hwriter)
  | some first =>
    obtain ⟨hnone, r, -, hentry⟩ := h.held location first hwriter
    exact Or.inr ⟨hnone, r.snapshot, hentry⟩

theorem writer?_concat {location : Location}
    (hplace : start.resolve (job.snapshotPath config run) = .ok location) (other : Location) :
    writer? config start (done ++ [(job, run)]) other =
      (writer? config start done other).or
        (if location = other then some (job, run) else none) := by
  rw [writer?_append]
  refine congrArg (Option.or _) ?_
  by_cases heq : location = other
  · simp [writer?, hplace, heq]
  · simp [writer?, hplace, heq]

/-- A run that finds the snapshot of another one leaves it as it is. -/
theorem hit (h : Filed config start done files) {location : Location} {first : LoadJob × ℕ}
    (hplace : start.resolve (job.snapshotPath config run) = .ok location)
    (hfirst : writer? config start done location = some first) :
    Filed config start (done ++ [(job, run)]) files := by
  have hsame (other : Location) : writer? config start (done ++ [(job, run)]) other =
      writer? config start done other := by
    rw [writer?_concat hplace]
    split_ifs with heq
    · rw [← heq, hfirst]
      rfl
    · exact Option.or_none
  constructor
  · intro other hother
    exact h.kept other ((hsame other).symm.trans hother)
  · intro other writer hother
    exact h.held other writer ((hsame other).symm.trans hother)

/-- A run that finds no snapshot is read, and its snapshot is the first one in its place. -/
theorem miss (h : Filed config start done files) {location : Location}
    (hplace : start.resolve (job.snapshotPath config run) = .ok location)
    (hfree : start.entry? location = none) (hfirst : writer? config start done location = none)
    (hread : (readRun config job run start).1 = .ok r) :
    Filed config start (done ++ [(job, run)]) (files.put location (.packed r.snapshot)) := by
  have hentry : files.entry? location = none := (h.kept location hfirst).trans hfree
  have hput : Files.entry? (files.put location (.packed r.snapshot)) location =
      some (.packed r.snapshot) := Files.entry_put_self (by simp [hentry]) _
  constructor
  · intro other hother
    rw [writer?_concat hplace, Option.or_eq_none_iff] at hother
    have hne : other ≠ location := by
      rintro rfl
      simp at hother
    rw [Files.entry_put_of_ne hne]
    exact h.kept other hother.1
  · intro other writer hother
    rw [writer?_concat hplace] at hother
    by_cases heq : location = other
    · subst heq
      rw [hfirst, if_pos rfl] at hother
      cases hother
      exact ⟨hfree, r, hread, hput⟩
    · rw [if_neg heq, Option.or_none] at hother
      rw [Files.entry_put_of_ne (Ne.symm heq)]
      exact h.held other writer hother

/-- A run whose snapshot was not there at first takes the one of the first run that shares it. -/
theorem load (h : Filed config start done files)
    (hfresh : ¬ start.contains (job.snapshotPath config run))
    (hload : RunData.load config job run files = (.ok r, files')) :
    Filed config start (done ++ [(job, run)]) files' ∧
      FirstReading config start (done ++ [(job, run)]) (job, run) r := by
  have hfree {location : Location}
      (hplace : start.resolve (job.snapshotPath config run) = .ok location) :
      start.entry? location = none := by
    by_contra hentry
    exact hfresh (Files.contains_iff.mpr ⟨location, hplace, hentry⟩)
  rcases load_cases config job run files with ⟨f, hfails⟩ | ⟨r', later, hok, hcached, hcases⟩
  · rw [hfails] at hload
    cases hload
  rw [hok] at hload
  cases hload
  rcases hcases with rfl | ⟨hread, location, hresolve, hnone, rfl⟩
  -- What stands in the place now was not there at first, so it is the snapshot of a run before.
  · obtain ⟨bytes, hopen, hbytes⟩ := hcached
    obtain ⟨location, hresolve, hentry⟩ := Files.open?_eq_ok.mp hopen
    have hplace := h.grown.resolve_of_later hresolve
    cases hwriter : writer? config start done location with
    | none =>
      rw [h.kept location hwriter, hfree hplace] at hentry
      cases hentry
    | some first =>
      obtain ⟨-, r', hread, hheld⟩ := h.held location first hwriter
      rw [hheld] at hentry
      cases hentry
      rw [ofSnapshot?_snapshot] at hbytes
      cases hbytes
      refine ⟨h.hit hplace hwriter, first, ⟨location, hplace, ?_⟩, hread⟩
      rw [writer?_concat hplace, hwriter]
      rfl
  -- The place is still free, so no run before has its snapshot there.
  · have hplace := h.grown.resolve_of_later hresolve
    have hfirst : writer? config start done location = none := by
      by_contra hsome
      obtain ⟨first, hfirst⟩ := Option.ne_none_iff_exists'.mp hsome
      obtain ⟨-, r', -, hheld⟩ := h.held location first hfirst
      rw [hheld] at hnone
      cases hnone
    have hstart := (readsTexts_readRun config job run).before h.grown hread
    refine ⟨h.miss hplace (hfree hplace) hfirst hstart, (job, run), ⟨location, hplace, ?_⟩, hstart⟩
    rw [writer?_concat hplace, hfirst, if_pos rfl]
    rfl

theorem loads {numbers : List ℕ} {runs : List (RunData Binary64)} {context : ℕ → String}
    (h : Filed config start done files)
    (hfresh : ∀ run ∈ numbers, ¬ start.contains (job.snapshotPath config run))
    (hload : numbers.mapM (fun run => Filing.within (context run) (RunData.load config job run))
      files = (.ok runs, files')) :
    let done' := done ++ numbers.map fun run => (job, run)
    Filed config start done' files' ∧
      List.Forall₂ (fun run => FirstReading config start done' (job, run)) numbers runs := by
  induction numbers generalizing done files runs with
  | nil =>
    cases hload
    rw [List.map_nil, List.append_nil]
    exact ⟨h, .nil⟩
  | cons run numbers ih =>
    obtain ⟨r, later, rest, hrun, hrest, rfl⟩ := mapM_cons_apply_eq_ok.mp hload
    obtain ⟨hlater, hreading⟩ :=
      h.load (hfresh run List.mem_cons_self) (Filing.within_eq_ok.mp hrun)
    obtain ⟨hfiled, hreadings⟩ :=
      ih hlater (fun other hother => hfresh other (List.mem_cons_of_mem _ hother)) hrest
    rw [List.append_assoc, List.singleton_append] at hfiled hreadings
    have hfirst := hreading.append (numbers.map fun run => (job, run))
    rw [List.append_assoc, List.singleton_append] at hfirst
    exact ⟨hfiled, .cons hfirst hreadings⟩

theorem loadAll {jobs : List LoadJob} {entryOf : LoadJob → Entry}
    (h : Filed config start done files)
    (hfresh : ∀ job ∈ jobs, ∀ run ∈ config.testRuns,
      ¬ start.contains (job.snapshotPath config run))
    (hload : Database.loadAll config jobs files =
      (jobs.map fun job => .ok (entryOf job), files')) :
    Filed config start (done ++ LoadJob.steps config jobs) files' ∧
      ∀ job ∈ jobs, ∃ runs, entryOf job = Entry.ofRuns job.testId job.resFile runs ∧
        List.Forall₂ (fun run => FirstReading config start (done ++ LoadJob.steps config jobs)
          (job, run)) config.testRuns runs := by
  induction jobs generalizing done files with
  | nil =>
    cases hload
    rw [LoadJob.steps, List.flatMap_nil, List.append_nil]
    exact ⟨h, nofun⟩
  | cons job jobs ih =>
    rw [Database.loadAll_cons] at hload
    obtain ⟨hresults, hfiles⟩ := Prod.mk.inj hload
    obtain ⟨hfirst, hrest⟩ := List.cons.inj hresults
    obtain ⟨runs, hruns, hentry⟩ := Entry.load_eq_pair.mp (Prod.ext hfirst rfl)
    obtain ⟨hlater, hreadings⟩ := h.loads (hfresh job List.mem_cons_self) hruns
    obtain ⟨hfiled, hall⟩ := ih hlater
      (fun other hother => hfresh other (List.mem_cons_of_mem _ hother)) (Prod.ext hrest hfiles)
    rw [List.append_assoc] at hfiled hall
    refine ⟨hfiled, fun other hother => ?_⟩
    rcases List.mem_cons.mp hother with rfl | hmem
    · refine ⟨runs, hentry, hreadings.imp fun run r hreading => ?_⟩
      have hmore := hreading.append (LoadJob.steps config jobs)
      rwa [List.append_assoc] at hmore
    · exact hall other hmem

end Filed

end RunData

structure IsName (name : String) : Prop where
  noSlash : '/' ∉ name.toList
  ne_empty : name ≠ ""
  ne_here : name ≠ "."
  ne_up : name ≠ ".."

theorem isName_of_mem {name : String} {c : Char} (hslash : '/' ∉ name.toList)
    (hc : c ∈ name.toList) (hdot : c ≠ '.') : IsName name := by
  constructor
  · exact hslash
  all_goals
    rintro rfl
    simp [hdot] at hc

namespace Files

variable {files : Files} {start found : Location}

theorem follow_append {names names' : List String}
    (h : files.follow start (names ++ names') = .ok found) :
    ∃ middle, files.follow middle names' = .ok found := by
  induction names generalizing start with
  | nil => exact ⟨start, h⟩
  | cons name names ih =>
    rw [List.cons_append, follow] at h
    split at h
    · split_ifs at h
      · exact ih h
      · exact ih h
      · exact ih h
    · cases h
    · cases h

theorem follow_names {names : List String} (hnames : ∀ name ∈ names, name ≠ "..")
    (h : files.follow start names = .ok found) : found = names.reverse ++ start := by
  induction names generalizing start with
  | nil =>
    cases h
    rfl
  | cons name names ih =>
    rw [follow] at h
    split at h
    · rw [if_neg (hnames name List.mem_cons_self)] at h
      rw [ih (fun other hother => hnames other (List.mem_cons_of_mem _ hother)) h]
      simp
    · cases h
    · cases h

/-- A path leads to a place whose last names are the last names of the path. -/
theorem resolve_names {path directory : String} {names : List String}
    (hpath : path.toList = directory.toList ++ names.flatMap fun name => '/' :: name.toList)
    (hnames : ∀ name ∈ names, IsName name) (h : files.resolve path = .ok found) :
    ∃ base, found = names.reverse ++ base := by
  have hparts : (splitWhere (· == '/') path.toList).map String.ofList =
      (directory.toList.splitOn '/').map String.ofList ++ names := by
    have hflat : (names.flatMap fun name => '/' :: name.toList) =
        (names.map String.toList).flatMap (List.cons '/') := by
      rw [List.flatMap_map]
    rw [splitWhere_beq, hpath, hflat, TestId.splitOn_flatMap_cons, List.map_append, List.map_map]
    · simp [Function.comp_def]
    · intro part hpart
      obtain ⟨name, hname, rfl⟩ := List.mem_map.mp hpart
      exact (hnames name hname).noSlash
  have hfilter : names.filter (fun part => part != "" && part != ".") = names := by
    apply List.filter_eq_self.mpr
    intro name hname
    simp [(hnames name hname).ne_empty, (hnames name hname).ne_here]
  obtain ⟨-, hfollow, -⟩ := resolve_eq_ok.mp h
  unfold namesOf at hfollow
  dsimp only at hfollow
  rw [hparts, List.filter_append, hfilter, ← List.append_assoc] at hfollow
  obtain ⟨base, hlast⟩ := follow_append hfollow
  exact ⟨base, follow_names (fun name hname => (hnames name hname).ne_up) hlast⟩

end Files

namespace PlotConfig

/-- A file of a run lies in the directory of the run, which lies in the one of its test. -/
theorem resolve_runFile {config : PlotConfig} {files : Files} {id : TestId} {run : ℕ}
    {name : String} (hstem : '/' ∉ id.prefixText.toList) (hname : IsName name)
    {location : Location}
    (hplace : files.resolve (config.runDir id run ++ "/" ++ name) = .ok location) :
    ∃ base, location = name :: s!"run_{run}" :: id.text :: base := by
  have hpath : (config.runDir id run ++ "/" ++ name).toList = config.resultsDir.toList ++
      [id.system.dirName, id.text, s!"run_{run}", name].flatMap fun part => '/' :: part.toList := by
    simp [runDir]
  have hsystem : IsName id.system.dirName := by
    cases id.system
    · exact isName_of_mem (c := 'k') (by decide) (by decide) (by decide)
    · exact isName_of_mem (c := 'b') (by decide) (by decide) (by decide)
  have htext : IsName id.text := by
    apply isName_of_mem (c := '-') (TestId.slash_notMem_text hstem)
    · simp [TestId.toList_text]
    · decide
  have hrun : IsName s!"run_{run}" := by
    have hdigits : '/' ∉ Nat.toDigits 10 run := (allDigits_toDigits run).notMem rfl
    apply isName_of_mem (c := 'r')
    · simp [hdigits]
    · simp
    · decide
  have hnames : ∀ part ∈ [id.system.dirName, id.text, s!"run_{run}", name], IsName part := by
    simp only [List.forall_mem_cons]
    exact ⟨hsystem, htext, hrun, hname, List.forall_mem_nil _⟩
  obtain ⟨base, rfl⟩ := Files.resolve_names hpath hnames hplace
  exact ⟨id.system.dirName :: base, rfl⟩

end PlotConfig

namespace LoadJob

variable {config : PlotConfig} {files : Files} {a b job : LoadJob} {run run' : ℕ}

/-- The names that a configuration gives to a test and a result file lead to no other directory. -/
structure SlashFree (job : LoadJob) : Prop where
  prefixText : '/' ∉ job.testId.prefixText.toList
  resFile : '/' ∉ job.resFile.toList

def snapshotName (job : LoadJob) : String := job.resFile ++ job.snapshotSuffix

theorem isName_snapshotName (h : job.SlashFree) : IsName job.snapshotName := by
  have hsuffix : '/' ∉ job.snapshotSuffix.toList ∧ '_' ∈ job.snapshotSuffix.toList := by
    unfold snapshotSuffix
    cases job.fromHistogram <;> decide
  apply isName_of_mem (c := '_')
  · simp [snapshotName, h.resFile, hsuffix.1]
  · simp [snapshotName, hsuffix.2]
  · decide

theorem resolve_snapshotPath (h : job.SlashFree) {location : Location}
    (hplace : files.resolve (job.snapshotPath config run) = .ok location) :
    ∃ base, location = job.snapshotName :: s!"run_{run}" :: job.testId.text :: base := by
  have hpath : job.snapshotPath config run =
      config.runDir job.testId run ++ "/" ++ job.snapshotName := by
    simp [snapshotPath, resultPath, snapshotName, String.append_assoc]
  rw [hpath] at hplace
  exact PlotConfig.resolve_runFile h.prefixText (isName_snapshotName h) hplace

theorem of_same_place (ha : a.SlashFree) (hb : b.SlashFree) {location : Location}
    (haplace : files.resolve (a.snapshotPath config run) = .ok location)
    (hbplace : files.resolve (b.snapshotPath config run') = .ok location) :
    a.testId.text = b.testId.text ∧ run = run' ∧ a.snapshotName = b.snapshotName := by
  obtain ⟨base, rfl⟩ := resolve_snapshotPath ha haplace
  obtain ⟨base', heq⟩ := resolve_snapshotPath hb hbplace
  simp only [List.cons.injEq] at heq
  obtain ⟨hname, hrun, htext, -⟩ := heq
  have hdigits := congrArg String.toList hrun
  exact ⟨htext, toDigits_injective (by simpa using hdigits), hname⟩

/-- The latencies of one job are those of histograms, and the result file of the other one is called
like its, with the beginning of the suffix for histograms behind. -/
@[mk_iff]
structure Namesake (histogram plain : LoadJob) : Prop where
  text : histogram.testId.text = plain.testId.text
  fromHistogram : histogram.fromHistogram = true
  notFromHistogram : plain.fromHistogram = false
  resFile : plain.resFile = histogram.resFile ++ "_hist"

theorem snapshotName_eq_iff (h : a.testId.text = b.testId.text) :
    a.snapshotName = b.snapshotName ↔ a.same b ∨ a.Namesake b ∨ b.Namesake a := by
  have hnames (c d : String) : c ++ "_hist_run_data_snapshot.bincode.gz" =
      d ++ "_run_data_snapshot.bincode.gz" ↔ d = c ++ "_hist" := by
    have hsuffix : "_hist_run_data_snapshot.bincode.gz" =
        "_hist" ++ "_run_data_snapshot.bincode.gz" := rfl
    rw [hsuffix, ← String.append_assoc, String.append_left_inj, eq_comm]
  rw [same_iff, sameTest_iff, namesake_iff, namesake_iff, snapshotName, snapshotName,
    snapshotSuffix, snapshotSuffix]
  cases ha : a.fromHistogram <;> cases hb : b.fromHistogram
  · simp [h]
  · simpa [h, eq_comm] using hnames b.resFile a.resFile
  · simpa [h] using hnames a.resFile b.resFile
  · simp [h]

theorem eq_of_same {jobs : List LoadJob} (hjobs : jobs.Pairwise fun a b => ¬ a.same b)
    (ha : a ∈ jobs) (hb : b ∈ jobs) (h : a.same b) : a = b := by
  have hsymm : Std.Symm fun a b : LoadJob => ¬ a.same b :=
    ⟨fun _ _ hab hba => hab (same_symm hba)⟩
  by_contra hne
  exact hjobs.forall ha hb hne h

/-- Without namesakes, no other run shares the snapshot of a run. -/
theorem eq_of_firstSharer {order : List LoadJob} (horder : order.Perm (ofConfig config))
    (hjob : job ∈ ofConfig config)
    (halone : ∀ other ∈ ofConfig config, other.SlashFree ∧ ¬ other.Namesake job ∧
      ¬ job.Namesake other) {first : LoadJob × ℕ}
    (h : RunData.FirstSharer config files (steps config order) (job, run) first) :
    first = (job, run) := by
  obtain ⟨location, hplace, hfirst⟩ := h
  have hmem := List.mem_of_find?_eq_some hfirst
  have hfound := List.find?_some hfirst
  obtain ⟨writer, hwriter, hstep⟩ := List.mem_flatMap.mp hmem
  obtain ⟨run', -, rfl⟩ := List.mem_map.mp hstep
  rw [decide_eq_true_eq] at hfound
  have hwriter := horder.mem_iff.mp hwriter
  obtain ⟨hfree, hnamesake, hnamesake'⟩ := halone writer hwriter
  obtain ⟨htext, rfl, hname⟩ := of_same_place hfree (halone job hjob).1 hfound hplace
  rcases (snapshotName_eq_iff htext).mp hname with hsame | hother | hother
  · rw [eq_of_same (pairwise_distinct _) hwriter hjob hsame]
  · exact absurd hother hnamesake
  · exact absurd hother hnamesake'

end LoadJob

/-- From a tree without snapshots, each run is loaded with what reading gives for the first run that
shares its snapshot. This is the run itself if no names lead to other directories and if no result
file is called like that of a job with histograms and the beginning of their suffix. -/
theorem Database.runs_of_loadIn {config : PlotConfig} {order : List LoadJob} {files files' : Files}
    {db : Database} (horder : order.Perm (LoadJob.ofConfig config))
    (hfresh : ∀ job ∈ LoadJob.ofConfig config, ∀ run ∈ config.testRuns,
      ¬ files.contains (job.snapshotPath config run))
    (h : loadIn config order files = (.ok db, files')) :
    List.Forall₂ (fun job entry => ∃ runs, entry = Entry.ofRuns job.testId job.resFile runs ∧
      List.Forall₂ (fun run r => ∃ first,
        RunData.FirstSharer config files (LoadJob.steps config order) (job, run) first ∧
        (RunData.readRun config first.1 first.2 files).1 = .ok r ∧
        ((∀ other ∈ LoadJob.ofConfig config, other.SlashFree ∧ ¬ other.Namesake job ∧
          ¬ job.Namesake other) → first = (job, run))) config.testRuns runs)
      (LoadJob.ofConfig config) db := by
  obtain ⟨entryOf, hloaded, rfl⟩ := (loadIn_eq_ok horder).mp h
  obtain ⟨-, hall⟩ := (RunData.Filed.nil config files).loadAll
    (fun job hjob => hfresh job (horder.mem_iff.mp hjob)) hloaded
  rw [List.nil_append] at hall
  rw [List.forall₂_map_right_iff, List.forall₂_same]
  intro job hjob
  obtain ⟨runs, hentry, hruns⟩ := hall job (horder.mem_iff.mpr hjob)
  refine ⟨runs, hentry, hruns.imp ?_⟩
  rintro run r ⟨first, hsharer, hread⟩
  exact ⟨first, hsharer, hread, fun halone => LoadJob.eq_of_firstSharer horder hjob halone hsharer⟩

/-- Two runs of a test whose result file is in the directory above them, with one snapshot. -/
def upwardsJob : LoadJob :=
  ⟨⟨.kawkab, "rw", 200, 10, 1, 16, 1, 100, .zero⟩, "../w.json", false⟩

def upwards : PlotConfig where
  resultsDir := "r"
  testRuns := [1, 2]
  figures := [.throughputBars "b"
    [⟨.kawkab, "m", .batchSize, [⟨"../w.json", "rw", 1, none, [.zero], false⟩]⟩] "x" false]

def upwardsTree : Files :=
  let test := Database.resultPlace.tail.tail
  ⟨("run_2" :: test, .directory) :: ("w.json" :: test, Database.resultFile) ::
    Database.resultTree.entries⟩

def upwardsPlace : Location :=
  "w.json_run_data_snapshot.bincode.gz" :: Database.resultPlace.tail.tail

theorem runs_of_loadIn_upwards :
    ∃ db files', Database.load upwards upwardsTree = (.ok db, files') ∧
      ∃ entry r, db = [entry] ∧ entry.runs[1]? = some r ∧
        (RunData.readRun upwards upwardsJob 1 upwardsTree).1 = .ok r := by
  have hjobs : LoadJob.ofConfig upwards = [upwardsJob] := rfl
  have hok : (Database.load upwards upwardsTree).1.isOk := by decide +kernel
  rcases hload : Database.load upwards upwardsTree with ⟨result, files'⟩
  rw [hload] at hok
  obtain ⟨db, rfl⟩ := exists_eq_ok_of_isOk hok
  refine ⟨db, files', rfl, ?_⟩
  rw [← Database.loadIn_ofConfig] at hload
  have hfresh : ∀ job ∈ LoadJob.ofConfig upwards, ∀ run ∈ upwards.testRuns,
      ¬ upwardsTree.contains (job.snapshotPath upwards run) := by decide +kernel
  have hall := Database.runs_of_loadIn (.refl _) hfresh hload
  rw [hjobs] at hall
  obtain ⟨entry, rest, ⟨runs, rfl, hruns⟩, hrest, rfl⟩ := List.forall₂_cons_left_iff.mp hall
  cases hrest
  obtain ⟨r₁, rest, -, hrest, rfl⟩ := List.forall₂_cons_left_iff.mp hruns
  obtain ⟨r, rest, ⟨first, ⟨location, hplace, hfirst⟩, hread, -⟩, -, rfl⟩ :=
    List.forall₂_cons_left_iff.mp hrest
  have hplaces : ∀ run ∈ upwards.testRuns, upwardsTree.resolve
      (upwardsJob.snapshotPath upwards run) = .ok upwardsPlace := by decide +kernel
  rw [hplaces 2 (by decide)] at hplace
  cases hplace
  have hwriter : RunData.writer? upwards upwardsTree (LoadJob.steps upwards [upwardsJob])
      upwardsPlace = some (upwardsJob, 1) :=
    List.find?_cons_of_pos (decide_eq_true (hplaces 1 (by decide)))
  rw [hwriter] at hfirst
  cases hfirst
  exact ⟨_, r, rfl, rfl, hread⟩

end ClusterBench
