import ClusterBench.Proofs.Plot.Snapshots

/-!
# The order of loaded results

The jobs of a load may be run in any order, each on the files that the jobs in front of it have
left. Its entries are in the order in which the figures ask for their tests for the first time, and
so is what it fails with: a job that fails is reported before one that has failed earlier if the
figures ask for it earlier.
-/

namespace ClusterBench

variable {config : PlotConfig} {job : LoadJob} {files files' : Files} {f : Failure}

namespace RunData

inductive Loads (config : PlotConfig) (job : LoadJob) :
    Files → List ℕ → List (RunData Binary64) → Files → Prop
  | nil (files : Files) : Loads config job files [] [] files
  | cons {files later files' : Files} {run : ℕ} {r : RunData Binary64} {numbers : List ℕ}
      {runs : List (RunData Binary64)} (h : load config job run files = (.ok r, later))
      (hrest : Loads config job later numbers runs files') :
      Loads config job files (run :: numbers) (r :: runs) files'

inductive FailsFirst (config : PlotConfig) (job : LoadJob) :
    Files → List ℕ → ℕ → Failure → Prop
  | here {files later : Files} {run : ℕ} {cause : Failure} (numbers : List ℕ)
      (h : load config job run files = (.error cause, later)) :
      FailsFirst config job files (run :: numbers) run cause
  | later {files later : Files} {run failing : ℕ} {r : RunData Binary64} {cause : Failure}
      {numbers : List ℕ} (h : load config job run files = (.ok r, later))
      (hrest : FailsFirst config job later numbers failing cause) :
      FailsFirst config job files (run :: numbers) failing cause

variable {numbers : List ℕ} {runs : List (RunData Binary64)} {context : ℕ → String}

theorem Loads.length_eq (h : Loads config job files numbers runs files') :
    runs.length = numbers.length := by
  induction h with
  | nil files => rfl
  | cons _ _ ih => exact congrArg Nat.succ ih

theorem FailsFirst.mem {run : ℕ} (h : FailsFirst config job files numbers run f) :
    run ∈ numbers := by
  induction h with
  | here numbers _ => exact List.mem_cons_self
  | later _ _ ih => exact List.mem_cons_of_mem _ ih

theorem loads_iff : numbers.mapM (fun run => Filing.within (context run)
    (load config job run)) files = (.ok runs, files') ↔
      Loads config job files numbers runs files' := by
  induction numbers generalizing files runs with
  | nil =>
    constructor
    · intro h
      cases h
      exact .nil _
    · intro h
      cases h
      rfl
  | cons run numbers ih =>
    rw [mapM_cons_apply_eq_ok]
    constructor
    · rintro ⟨r, later, rest, hrun, hrest, rfl⟩
      exact .cons (Filing.within_eq_ok.mp hrun) (ih.mp hrest)
    · intro h
      cases h with
      | cons hrun hrest => exact ⟨_, _, _, Filing.within_eq_ok.mpr hrun, ih.mpr hrest, rfl⟩

/-- Runs fail as the first one of them that fails. -/
theorem failsFirst_iff : (numbers.mapM (fun run => Filing.within (context run)
    (load config job run)) files).1 = .error f ↔
      ∃ run cause, FailsFirst config job files numbers run cause ∧
        f = cause.within (context run) := by
  induction numbers generalizing files with
  | nil => exact iff_of_false nofun nofun
  | cons run numbers ih =>
    rw [mapM_cons_apply_eq_error]
    constructor
    · rintro (hrun | ⟨r, later, hrun, hrest⟩)
      · rw [Filing.within_apply] at hrun
        rcases hload : load config job run files with ⟨cause | r, later⟩
        · rw [hload] at hrun
          cases hrun
          exact ⟨run, cause, .here numbers hload, rfl⟩
        · rw [hload] at hrun
          cases hrun
      · obtain ⟨failing, cause, hfails, rfl⟩ := ih.mp hrest
        exact ⟨failing, cause, .later (Filing.within_eq_ok.mp hrun) hfails, rfl⟩
    · rintro ⟨failing, cause, hfails, rfl⟩
      cases hfails with
      | here _ h =>
        rw [Filing.within_apply, h]
        exact Or.inl rfl
      | later h hrest =>
        exact Or.inr ⟨_, _, Filing.within_eq_ok.mpr h, ih.mpr ⟨failing, cause, hrest, rfl⟩⟩

end RunData

namespace Entry

variable {entry : Entry}

structure Holds (config : PlotConfig) (job : LoadJob) (files : Files) (entry : Entry) : Prop where
  key : entry.key = job.testId.text
  testId : entry.testId = job.testId
  resFile : entry.resFile = job.resFile
  runs : ∃ files', RunData.Loads config job files config.testRuns entry.runs files'
  summary : entry.summary = Summary.ofRuns entry.runs

theorem load_eq_ok_iff_holds : (load config job files).1 = .ok entry ↔
    entry.Holds config job files := by
  rw [load_eq_ok]
  constructor
  · rintro ⟨runs, hruns, rfl⟩
    exact ⟨rfl, rfl, rfl, ⟨_, RunData.loads_iff.mp (Prod.ext hruns rfl)⟩, rfl⟩
  · rintro ⟨hkey, hid, hfile, ⟨files', hruns⟩, hsummary⟩
    refine ⟨entry.runs, congrArg Prod.fst (RunData.loads_iff.mpr hruns), ?_⟩
    obtain ⟨key, testId, resFile, runs, summary⟩ := entry
    dsimp only at hkey hid hfile hsummary
    subst hkey hid hfile hsummary
    rfl

/-- A job fails as its first run that fails. -/
theorem load_eq_error_iff : (load config job files).1 = .error f ↔ ∃ run cause,
    RunData.FailsFirst config job files config.testRuns run cause ∧
      f = cause.within s!"load run {run} of {job.testId.text}" := by
  rw [load_eq, bind_apply_eq_error, loadRuns, RunData.failsFirst_iff]
  simp [pure_apply]

end Entry

namespace Database

variable {order : List LoadJob}

/-- The files that a job is run on when jobs are run in an order. -/
def turn (config : PlotConfig) (order : List LoadJob) (files : Files) (job : LoadJob) : Files :=
  (loadAll config (order.takeWhile fun other => !other.same job) files).2

/-- The result of a job is what it gives at its turn. -/
theorem resultOf_loadAll (hpairwise : order.Pairwise fun a b => ¬ a.same b) (hjob : job ∈ order) :
    resultOf order (loadAll config order files).1 job =
      (Entry.load config job (turn config order files job)).1 := by
  obtain ⟨before, after, rfl⟩ := List.append_of_mem hjob
  have hself : job.same job := by simp [LoadJob.same]
  have hbefore : ∀ other ∈ before, (!other.same job) = true := by
    intro other hother
    rw [List.pairwise_append] at hpairwise
    simpa using hpairwise.2.2 other hother job List.mem_cons_self
  have hfront : (before ++ job :: after).takeWhile (fun other => !other.same job) = before := by
    rw [List.takeWhile_append_of_pos hbefore, List.takeWhile_cons_of_neg (by simp [hself]),
      List.append_nil]
  have hlength := length_loadAll config before files
  have hskip : (before.zip (loadAll config before files).1).find? (fun done => done.1.same job) =
      none := by
    rw [List.find?_eq_none]
    intro done hdone
    simpa using hbefore done.1 (List.of_mem_zip hdone).1
  rw [turn, hfront, resultOf, loadAll_append, List.zip_append hlength.symm, List.find?_append,
    hskip, loadAll_cons, List.zip_cons_cons, List.find?_cons, hself]
  rfl

theorem loadIn_apply (horder : order.Perm (LoadJob.ofConfig config)) :
    (loadIn config order files).1 = inContext "load entry" ((LoadJob.ofConfig config).mapM
      fun job => (Entry.load config job (turn config order files job)).1) := by
  have hpairwise := LoadJob.pairwise_of_perm horder
  have hresult : ∀ job ∈ LoadJob.ofConfig config,
      resultOf order (loadAll config order files).1 job =
        (Entry.load config job (turn config order files job)).1 :=
    fun job hjob => resultOf_loadAll hpairwise (horder.mem_iff.mpr hjob)
  rw [← mapM_congr hresult]
  rfl

/-- A load has one job for each test id as it is shown, result file and kind of latencies that the
figures ask for, in the order in which they do so first. In whichever order the jobs are run, the
entries of a load that succeeds are those of its jobs, each with all its runs, and a load that fails
does so as the first job that fails, at its first run that fails. -/
theorem loadIn_inOrder (horder : order.Perm (LoadJob.ofConfig config)) (files : Files) :
    let jobs := LoadJob.ofConfig config
    let turn := turn config order files
    (jobs = firstOccurrences LoadJob.shown (LoadJob.asked config) ∧
      (jobs.map LoadJob.shown).Nodup ∧
      ∀ k, k ∈ jobs.map LoadJob.shown ↔ k ∈ (LoadJob.asked config).map LoadJob.shown) ∧
    (∀ db, (loadIn config order files).1 = .ok db ↔
      List.Forall₂ (fun job (entry : Entry) => entry.Holds config job (turn job)) jobs db) ∧
    (∀ f, (loadIn config order files).1 = .error f ↔ ∃ before job after run cause,
      jobs = before ++ job :: after ∧
        (∀ other ∈ before, ∃ entry : Entry, entry.Holds config other (turn other)) ∧
        RunData.FailsFirst config job (turn job) config.testRuns run cause ∧
        f = (cause.within s!"load run {run} of {job.testId.text}").within "load entry") ∧
    loadIn config jobs = load config := by
  intro jobs turn
  have hjobs : jobs = firstOccurrences LoadJob.shown (LoadJob.asked config) :=
    LoadJob.distinct_eq _
  refine ⟨⟨hjobs, ?_, fun k => ?_⟩, fun db => ?_, fun f => ?_, loadIn_ofConfig config⟩
  · rw [hjobs]
    exact nodup_map_firstOccurrences _ _
  · rw [hjobs]
    exact mem_map_firstOccurrences
  · rw [loadIn_apply horder, inContext_eq_ok, mapM_eq_ok_iff, ← List.forall₂_eq_eq_eq,
      List.forall₂_map_left_iff, List.forall₂_map_right_iff]
    simp only [Entry.load_eq_ok_iff_holds]
    rfl
  · rw [loadIn_apply horder, inContext_eq_error]
    simp only [mapM_eq_error_iff, Entry.load_eq_ok_iff_holds, Entry.load_eq_error_iff]
    constructor
    · rintro ⟨_, ⟨before, job, after, hsplit, hbefore, run, cause, hfails, rfl⟩, rfl⟩
      exact ⟨before, job, after, run, cause, hsplit, hbefore, hfails, rfl⟩
    · rintro ⟨before, job, after, run, cause, hsplit, hbefore, hfails, rfl⟩
      exact ⟨_, ⟨before, job, after, hsplit, hbefore, run, cause, hfails, rfl⟩, rfl⟩

/-- Two jobs for one test, run the other way round. -/
theorem loadIn_inOrder_backwards :
    let jobs := LoadJob.ofConfig bothKinds
    let text := "rw-nc200-bs1-rs16-nf1-wr100-iat0"
    (∃ db, (loadIn bothKinds jobs.reverse bothSnapshots).1 = .ok db ∧
      db.map Entry.key = [text, text] ∧ ∀ entry ∈ db, entry.runs.length = 1) ∧
    ∃ cause : Failure, (loadIn bothKinds jobs.reverse ⟨[]⟩).1 =
      .error ((cause.within s!"load run 1 of {text}").within "load entry") := by
  intro jobs text
  have htext : ∀ job ∈ jobs, job.testId.text = text := by decide +kernel
  have hreverse : jobs.reverse.Perm jobs := List.reverse_perm jobs
  constructor
  · obtain ⟨-, hok, -⟩ := loadIn_inOrder hreverse bothSnapshots
    have hloads : (loadIn bothKinds jobs.reverse bothSnapshots).1.isOk := by decide +kernel
    obtain ⟨db, hdb⟩ := exists_eq_ok_of_isOk hloads
    have hall := (hok db).mp hdb
    refine ⟨db, hdb, ?_, ?_⟩
    · have hkeys : jobs.map (·.testId.text) = db.map Entry.key := by
        rw [← List.forall₂_eq_eq_eq, List.forall₂_map_left_iff, List.forall₂_map_right_iff]
        exact hall.imp fun job entry hentry => hentry.key.symm
      rw [← hkeys]
      decide +kernel
    · refine forall_mem_of_forall₂ hall fun job entry hentry => ?_
      obtain ⟨files', hruns⟩ := hentry.runs
      exact hruns.length_eq
  · obtain ⟨-, -, hfails, -⟩ := loadIn_inOrder hreverse ⟨[]⟩
    have hmissing : (loadIn bothKinds jobs.reverse ⟨[]⟩).1.isOk = false := by decide +kernel
    rcases hload : (loadIn bothKinds jobs.reverse ⟨[]⟩).1 with f | db
    · obtain ⟨before, job, after, run, cause, hsplit, -, hfirst, rfl⟩ := (hfails f).mp hload
      have hjob : job ∈ jobs := by
        rw [show jobs = _ from hsplit]
        exact List.mem_append_right _ List.mem_cons_self
      obtain rfl := List.mem_singleton.mp hfirst.mem
      rw [htext job hjob]
      exact ⟨cause, rfl⟩
    · rw [hload] at hmissing
      cases hmissing

end Database

end ClusterBench
