import ClusterBench.Proofs.Files
import ClusterBench.Proofs.Plot.Loading

/-!
# Snapshots of runs

A load changes a tree of results at most by the snapshots that it leaves, one for each run that it
has read, where nothing was before. A run whose snapshot is there is taken from it and nothing else.
So what has been loaded once is loaded again as long as the snapshots stay, whatever happens to the
results.
-/

namespace ClusterBench

namespace Filing

variable {α β : Type}

theorem within_apply (context : String) (x : Filing α) (files : Files) :
    within context x files = ((x files).1.mapError (·.within context), (x files).2) := by
  unfold within
  rcases x files with ⟨f | a, files'⟩ <;> rfl

theorem within_eq_ok {context : String} {x : Filing α} {files files' : Files} {a : α} :
    within context x files = (.ok a, files') ↔ x files = (.ok a, files') := by
  unfold within
  rcases x files with ⟨f | b, files''⟩
  · exact iff_of_false nofun nofun
  · rfl

/-- Nothing is changed, and what does not fail gives the same without the compressed files that have
been added. -/
def ReadsTexts (x : Filing α) : Prop :=
  ∀ files, (∃ f, x files = (.error f, files)) ∨
    ∃ a, x files = (.ok a, files) ∧ ∀ start : Files, start.Extends files → x start = (.ok a, start)

namespace ReadsTexts

theorem lift (result : Except Failure α) : ReadsTexts (lift result) := by
  intro files
  cases result with
  | error f => exact Or.inl ⟨f, rfl⟩
  | ok a => exact Or.inr ⟨a, rfl, fun _ _ => rfl⟩

theorem pure (a : α) : ReadsTexts (Pure.pure a : Filing α) := lift (.ok a)

theorem bind {x : Filing α} {f : α → Filing β} (hx : ReadsTexts x) (hf : ∀ a, ReadsTexts (f a)) :
    ReadsTexts (x >>= f) := by
  intro files
  rcases hx files with ⟨e, hrun⟩ | ⟨a, hrun, hstart⟩
  · exact Or.inl ⟨e, by rw [bind_apply, hrun]⟩
  · rcases hf a files with ⟨e, hnext⟩ | ⟨b, hnext, hstart'⟩
    · exact Or.inl ⟨e, by rw [bind_apply, hrun, ← hnext]⟩
    · refine Or.inr ⟨b, by rw [bind_apply, hrun, ← hnext], fun start hext => ?_⟩
      rw [bind_apply, hstart start hext]
      exact hstart' start hext

theorem within {x : Filing α} (hx : ReadsTexts x) (context : String) :
    ReadsTexts (within context x) := by
  intro files
  rcases hx files with ⟨f, hrun⟩ | ⟨a, hrun, hstart⟩
  · exact Or.inl ⟨f.within context, by rw [within_apply, hrun]; rfl⟩
  · exact Or.inr ⟨a, within_eq_ok.mpr hrun, fun start hext => within_eq_ok.mpr (hstart start hext)⟩

theorem readText (path : String) : ReadsTexts (ask (·.readText path)) := by
  intro files
  unfold ask
  dsimp only
  cases htext : files.readText path with
  | error fault => exact Or.inl ⟨_, rfl⟩
  | ok text =>
    refine Or.inr ⟨text, rfl, fun start hext => ?_⟩
    rw [hext.readText_of_later htext]

theorem keeps {x : Filing α} (hx : ReadsTexts x) : Keeps id x := by
  intro files
  rcases hx files with ⟨f, hrun⟩ | ⟨a, hrun, -⟩ <;> rw [hrun]

theorem before {x : Filing α} (hx : ReadsTexts x) {start files : Files}
    (hext : start.Extends files) {a : α} (h : (x files).1 = .ok a) : (x start).1 = .ok a := by
  rcases hx files with ⟨f, hrun⟩ | ⟨b, hrun, hstart⟩
  · rw [hrun] at h
    cases h
  · rw [hstart start hext, ← h, hrun]

end ReadsTexts

end Filing

namespace HistogramFile

theorem readsTexts_load (path : String) : (load path).ReadsTexts :=
  .bind ((Filing.ReadsTexts.readText path).within _) fun _ => (Filing.ReadsTexts.lift _).within _

theorem readsTexts_ofRun (runDir : String) : (ofRun runDir).ReadsTexts :=
  .bind (readsTexts_load _) fun _ => .bind (.lift _) fun _ =>
    .bind (readsTexts_load _) fun _ => .bind (.lift _) fun _ => .pure _

end HistogramFile

theorem Binary64.toBits_lt (x : Binary64) : x.toBits < 2 ^ 64 := by
  have he := x.exponent.isLt
  have hf := x.fraction.isLt
  unfold toBits
  cases x.negative <;> simp [fractionBits, signBit] at * <;> omega

namespace RunData

variable {config : PlotConfig} {job : LoadJob} {run : ℕ} {files files' : Files}
  {r : RunData Binary64}

theorem readsTexts_readRun (config : PlotConfig) (job : LoadJob) (run : ℕ) :
    (readRun config job run).ReadsTexts := by
  unfold readRun
  refine .bind ((Filing.ReadsTexts.readText _).within _) fun text =>
    .bind ((Filing.ReadsTexts.lift _).within _) fun r => ?_
  split_ifs
  · refine .bind (HistogramFile.readsTexts_ofRun _) fun histogram => .bind (.lift _) fun _ => ?_
    split
    · exact .pure _
    · exact .lift _
  · exact .lift _
  · exact .pure _

theorem wordOfBytes_lowest (count n : ℕ) :
    wordOfBytes ((List.range count).map fun i => UInt8.ofNat (n / 2 ^ (8 * i))) =
      n % 2 ^ (8 * count) := by
  induction count generalizing n with
  | zero => simp [wordOfBytes, Nat.mod_one]
  | succ count ih =>
    have hshift : (fun i => UInt8.ofNat (n / 2 ^ (8 * (i + 1)))) =
        fun i => UInt8.ofNat (n / 256 / 2 ^ (8 * i)) := by
      funext i
      rw [Nat.div_div_eq_div_mul, Nat.mul_succ, Nat.pow_add, Nat.mul_comm (2 ^ (8 * i))]
    have hrest := ih (n / 256)
    rw [← hshift] at hrest
    calc
      wordOfBytes ((List.range (count + 1)).map fun i => UInt8.ofNat (n / 2 ^ (8 * i))) =
          n % 256 + 256 * (n / 256 % 2 ^ (8 * count)) := by
        rw [List.range_succ_eq_map, List.map_cons, List.map_map, ← hrest]
        simp [wordOfBytes, Function.comp_def]
      _ = n % 2 ^ (8 * (count + 1)) := by
        rw [← Nat.mod_mul, Nat.mul_succ, Nat.pow_add, Nat.mul_comm (2 ^ (8 * count))]

theorem readDoubles_snapshot (xs : List Binary64) :
    readDoubles xs.length (xs.flatMap fun x => wordBytes x.toBits) = some xs := by
  induction xs with
  | nil => rfl
  | cons x xs ih =>
    have hlength : (wordBytes x.toBits).length = 8 := by simp [wordBytes]
    have hword : wordOfBytes (wordBytes x.toBits) = x.toBits :=
      (wordOfBytes_lowest 8 x.toBits).trans (Nat.mod_eq_of_lt x.toBits_lt)
    rw [List.flatMap_cons, List.length_cons, readDoubles, if_neg (by simp [hlength]),
      List.drop_left' hlength, List.take_left' hlength, ih, hword, Binary64.ofBits_toBits]
    rfl

theorem ofSnapshot?_snapshot (r : RunData Binary64) : ofSnapshot? r.snapshot = some r := by
  have hread : readDoubles 9 r.snapshot = some r.toList := readDoubles_snapshot r.toList
  rw [ofSnapshot?, hread]
  exact ofList?_toList r

/-- The snapshot of a run is there, and it holds these results. -/
def Cached (config : PlotConfig) (job : LoadJob) (run : ℕ) (files : Files)
    (r : RunData Binary64) : Prop :=
  ∃ bytes, files.open? (job.snapshotPath config run) = .ok (.packed bytes) ∧
    ofSnapshot? bytes = some r

theorem Cached.later (h : Cached config job run files r) (hext : files.Extends files') :
    Cached config job run files' r := by
  obtain ⟨bytes, hopen, hbytes⟩ := h
  exact ⟨bytes, hext.open?_later hopen, hbytes⟩

theorem loadSnapshot_apply (path : String) (files : Files) :
    (loadSnapshot path files).2 = files ∧ ∀ r, (loadSnapshot path files).1 = .ok r ↔
      ∃ bytes, files.open? path = .ok (.packed bytes) ∧ ofSnapshot? bytes = some r := by
  rw [loadSnapshot, Filing.within_apply, bind_apply, Filing.within_apply, Filing.ask]
  rcases files.open? path with fault | (_ | bytes | bytes)
  · simp [Except.mapError]
  · simp [Except.mapError, Filing.within_apply, Filing.lift, ofEntry]
  · simp [Except.mapError, Filing.within_apply, Filing.lift, ofEntry]
  · cases hbytes : ofSnapshot? bytes <;>
      simp [Except.mapError, Filing.within_apply, Filing.lift, ofEntry, hbytes]

def save (path : String) (r : RunData Binary64) : Filing Unit :=
  Filing.within s!"serialize run data snapshot {path}" (Filing.within "serialize create file"
    (Filing.change (·.write path (.packed r.snapshot))))

theorem save_cases (path : String) (r : RunData Binary64) (files : Files) :
    (∃ f, save path r files = (.error f, files)) ∨
      ∃ files', files.write path (.packed r.snapshot) = .ok files' ∧
        save path r files = (.ok (), files') := by
  rw [save, Filing.within_apply, Filing.within_apply, Filing.change]
  dsimp only
  cases files.write path (.packed r.snapshot) with
  | error fault => exact Or.inl ⟨_, rfl⟩
  | ok files' => exact Or.inr ⟨files', rfl, rfl⟩

theorem load_apply (config : PlotConfig) (job : LoadJob) (run : ℕ) (files : Files) :
    load config job run files =
      if files.contains (job.snapshotPath config run) then
        loadSnapshot (job.snapshotPath config run) files
      else (do
        let r ← readRun config job run
        save (job.snapshotPath config run) r
        return r : Filing (RunData Binary64)) files := by
  unfold load
  rw [bind_apply]
  change (if files.contains _ then _ else _ : Filing _) files = _
  split_ifs <;> rfl

/-- A run that fails changes nothing. One that succeeds is taken from its snapshot, or it is read
and its snapshot is put in a place where nothing was. -/
theorem load_cases (config : PlotConfig) (job : LoadJob) (run : ℕ) (files : Files) :
    (∃ f, load config job run files = (.error f, files)) ∨
      ∃ r files', load config job run files = (.ok r, files') ∧
        Cached config job run files' r ∧
        (files' = files ∨ (readRun config job run files).1 = .ok r ∧
          ∃ location, files.resolve (job.snapshotPath config run) = .ok location ∧
            files.entry? location = none ∧
            files' = files.put location (.packed r.snapshot)) := by
  rw [load_apply]
  split_ifs with hcontains
  · obtain ⟨hkept, hok⟩ := loadSnapshot_apply (job.snapshotPath config run) files
    rcases hrun : loadSnapshot (job.snapshotPath config run) files with ⟨f | r, files'⟩
    · rw [hrun] at hkept
      exact Or.inl ⟨f, Prod.ext rfl hkept⟩
    · rw [hrun] at hkept hok
      obtain rfl : files' = files := hkept
      exact Or.inr ⟨r, files', rfl, (hok r).mp rfl, Or.inl rfl⟩
  · rw [bind_apply]
    rcases readsTexts_readRun config job run files with ⟨f, hread⟩ | ⟨r, hread, -⟩
    · rw [hread]
      exact Or.inl ⟨f, rfl⟩
    · rw [hread]
      dsimp only
      rw [bind_apply]
      rcases save_cases (job.snapshotPath config run) r files with
        ⟨f, hsave⟩ | ⟨files', hwrite, hsave⟩
      · rw [hsave]
        exact Or.inl ⟨f, rfl⟩
      · obtain ⟨location, hresolve, hput, hopen⟩ := Files.write_eq_ok hwrite
        have hfree : files.entry? location = none := by
          by_contra hentry
          exact hcontains (Files.contains_iff.mpr ⟨location, hresolve, hentry⟩)
        rw [hsave]
        exact Or.inr ⟨r, files', rfl, ⟨_, hopen, ofSnapshot?_snapshot r⟩,
          Or.inr ⟨rfl, location, hresolve, hfree, hput⟩⟩

theorem load_of_cached (h : Cached config job run files r) :
    load config job run files = (.ok r, files) := by
  obtain ⟨bytes, hopen, hbytes⟩ := h
  obtain ⟨hkept, hok⟩ := loadSnapshot_apply (job.snapshotPath config run) files
  rw [load_apply, if_pos (Files.contains_of_open? hopen)]
  exact Prod.ext ((hok r).mpr ⟨bytes, hopen, hbytes⟩) hkept

theorem extends_load (config : PlotConfig) (job : LoadJob) (run : ℕ) (files : Files) :
    files.Extends (load config job run files).2 := by
  rcases load_cases config job run files with
    ⟨f, hload⟩ | ⟨r, files', hload, -, rfl | ⟨-, location, -, hfree, rfl⟩⟩
  · rw [hload]
    exact .refl files
  · rw [hload]
    exact .refl files'
  · rw [hload]
    exact .put hfree _

theorem cached_of_load (h : load config job run files = (.ok r, files')) :
    Cached config job run files' r := by
  rcases load_cases config job run files with ⟨f, hload⟩ | ⟨r', later, hload, hcached, -⟩
  · rw [hload] at h
    cases h
  · rw [hload] at h
    cases h
    exact hcached

section Runs

variable {numbers : List ℕ} {runs : List (RunData Binary64)} {context : ℕ → String}

theorem cached_of_loads (h : numbers.mapM (fun run => Filing.within (context run)
      (load config job run)) files = (.ok runs, files')) :
    files.Extends files' ∧
      List.Forall₂ (fun run => Cached config job run files') numbers runs := by
  induction numbers generalizing files runs with
  | nil =>
    cases h
    exact ⟨.refl _, .nil⟩
  | cons run numbers ih =>
    obtain ⟨r, later, rest, hrun, hrest, rfl⟩ := mapM_cons_apply_eq_ok.mp h
    have hload := Filing.within_eq_ok.mp hrun
    have hfirst := extends_load config job run files
    rw [hload] at hfirst
    obtain ⟨hext, hcached⟩ := ih hrest
    exact ⟨hfirst.trans hext, .cons ((cached_of_load hload).later hext) hcached⟩

theorem loads_of_cached
    (h : List.Forall₂ (fun run => Cached config job run files) numbers runs) :
    numbers.mapM (fun run => Filing.within (context run) (load config job run)) files =
      (.ok runs, files) := by
  induction h with
  | nil => rfl
  | cons hrun _ ih =>
    exact mapM_cons_apply_eq_ok.mpr
      ⟨_, files, _, Filing.within_eq_ok.mpr (load_of_cached hrun), ih, rfl⟩

end Runs

end RunData

namespace Entry

variable {config : PlotConfig} {job : LoadJob} {files files' : Files} {entry : Entry}

def Cached (config : PlotConfig) (job : LoadJob) (files : Files) (entry : Entry) : Prop :=
  ∃ runs, entry = ofRuns job.testId job.resFile runs ∧
    List.Forall₂ (fun run => RunData.Cached config job run files) config.testRuns runs

theorem Cached.later (h : Cached config job files entry) (hext : files.Extends files') :
    Cached config job files' entry := by
  obtain ⟨runs, hentry, hruns⟩ := h
  exact ⟨runs, hentry, hruns.imp fun _ _ hrun => hrun.later hext⟩

theorem load_eq_pair : load config job files = (.ok entry, files') ↔
    ∃ runs, loadRuns config job files = (.ok runs, files') ∧
      entry = ofRuns job.testId job.resFile runs := by
  rw [load_eq, bind_apply_eq_ok]
  constructor
  · rintro ⟨runs, later, hruns, hpure⟩
    cases hpure
    exact ⟨runs, hruns, rfl⟩
  · rintro ⟨runs, hruns, rfl⟩
    exact ⟨runs, files', hruns, rfl⟩

theorem cached_of_load (h : load config job files = (.ok entry, files')) :
    files.Extends files' ∧ Cached config job files' entry := by
  obtain ⟨runs, hruns, hentry⟩ := load_eq_pair.mp h
  obtain ⟨hext, hcached⟩ := RunData.cached_of_loads hruns
  exact ⟨hext, runs, hentry, hcached⟩

theorem load_of_cached (h : Cached config job files entry) :
    load config job files = (.ok entry, files) := by
  obtain ⟨runs, hentry, hruns⟩ := h
  exact load_eq_pair.mpr ⟨runs, RunData.loads_of_cached hruns, hentry⟩

end Entry

namespace LoadJob

theorem same_symm {a b : LoadJob} (h : a.same b) : b.same a := by
  simp only [same, Bool.and_eq_true, beq_iff_eq] at h ⊢
  exact ⟨⟨h.1.1.symm, h.1.2.symm⟩, h.2.symm⟩

theorem pairwise_distinct (jobs : List LoadJob) :
    (distinct jobs).Pairwise fun a b => ¬ a.same b := by
  rw [distinct_eq]
  apply (List.pairwise_map.mp (nodup_map_firstOccurrences shown jobs)).imp
  intro a b hne hsame
  exact hne ((same_iff_shown a b).mp hsame)

theorem pairwise_of_perm {config : PlotConfig} {order : List LoadJob}
    (h : order.Perm (ofConfig config)) : order.Pairwise fun a b => ¬ a.same b :=
  (pairwise_distinct _).perm h.symm fun hab hba => hab (same_symm hba)

end LoadJob

namespace Database

def resultOf (order : List LoadJob) (results : List (Except Failure Entry)) (job : LoadJob) :
    Except Failure Entry :=
  match (order.zip results).find? fun done => done.1.same job with
  | some done => done.2
  | none => .error .broken

def entryIn (order : List LoadJob) (results : List (Except Failure Entry)) (job : LoadJob) :
    Entry :=
  match resultOf order results job with
  | .ok entry => entry
  | .error _ => Entry.ofRuns job.testId job.resFile []

/-- Loads a database, running the jobs in an order. The entries have the order of the jobs. -/
def loadIn (config : PlotConfig) (order : List LoadJob) : Filing Database := fun files =>
  let (results, files) := loadAll config order files
  (inContext "load entry" ((LoadJob.ofConfig config).mapM (resultOf order results)), files)

variable {config : PlotConfig} {order order' : List LoadJob} {files files' later : Files}
  {db : Database}

theorem inContext_eq_ok {α : Type} {context : String} {result : Except Failure α} {a : α} :
    inContext context result = .ok a ↔ result = .ok a := by
  cases result <;> simp [inContext]

theorem inContext_eq_error {α : Type} {context : String} {result : Except Failure α} {f : Failure} :
    inContext context result = .error f ↔ ∃ cause, result = .error cause ∧
      f = cause.within context := by
  cases result <;> simp [inContext, eq_comm]

theorem map_resultOf {results : List (Except Failure Entry)}
    (hpairwise : order.Pairwise fun a b => ¬ a.same b) (hlength : results.length = order.length) :
    order.map (resultOf order results) = results := by
  induction order generalizing results with
  | nil => exact (List.length_eq_zero_iff.mp hlength).symm
  | cons job order ih =>
    obtain ⟨result, results, rfl⟩ := List.exists_cons_of_length_eq_add_one hlength
    obtain ⟨hjob, hrest⟩ := List.pairwise_cons.mp hpairwise
    have hfirst : resultOf (job :: order) (result :: results) job = result := by
      simp [resultOf, LoadJob.same]
    have hnext : ∀ other ∈ order, resultOf (job :: order) (result :: results) other =
        resultOf order results other := by
      intro other hother
      have hskip := hjob other hother
      rw [Bool.not_eq_true] at hskip
      simp [resultOf, hskip]
    rw [List.map_cons, hfirst, List.map_congr_left hnext, ih hrest (by simpa using hlength)]

/-- Jobs that are run as they stand load the database. -/
theorem loadIn_ofConfig (config : PlotConfig) :
    loadIn config (LoadJob.ofConfig config) = load config := by
  funext files
  have hlength := length_loadAll config (LoadJob.ofConfig config) files
  unfold loadIn load
  generalize loadAll config (LoadJob.ofConfig config) files = loaded at hlength ⊢
  obtain ⟨results, files'⟩ := loaded
  have hresults := map_resultOf (LoadJob.pairwise_of_perm (.refl _)) hlength
  have hmapM : (LoadJob.ofConfig config).mapM (resultOf (LoadJob.ofConfig config) results) =
      results.mapM id := by
    dsimp only at hresults
    conv_rhs => rw [← hresults, List.mapM_map]
    rfl
  dsimp only
  rw [hmapM]

/-- A load in an order gives each job an entry, and the same one wherever the job is run. -/
theorem loadIn_eq_ok (horder : order.Perm (LoadJob.ofConfig config)) :
    loadIn config order files = (.ok db, files') ↔ ∃ entryOf : LoadJob → Entry,
      loadAll config order files = (order.map fun job => .ok (entryOf job), files') ∧
        db = (LoadJob.ofConfig config).map entryOf := by
  have hlength := length_loadAll config order files
  have hpairwise := LoadJob.pairwise_of_perm horder
  unfold loadIn
  generalize loadAll config order files = loaded at hlength ⊢
  obtain ⟨results, later⟩ := loaded
  have hresults := map_resultOf hpairwise hlength
  dsimp only at hresults ⊢
  constructor
  · intro h
    obtain ⟨hdb, rfl⟩ : (LoadJob.ofConfig config).mapM (resultOf order results) = .ok db ∧
        later = files' := by
      obtain ⟨hdb, hlater⟩ := Prod.mk.inj h
      exact ⟨inContext_eq_ok.mp hdb, hlater⟩
    rw [mapM_eq_ok_iff] at hdb
    have hentry : ∀ job ∈ LoadJob.ofConfig config,
        resultOf order results job = .ok (entryIn order results job) := by
      intro job hjob
      have hmem : resultOf order results job ∈ db.map .ok := by
        rw [← hdb]
        exact List.mem_map_of_mem hjob
      obtain ⟨entry, -, hresult⟩ := List.mem_map.mp hmem
      rw [entryIn, ← hresult]
    refine ⟨entryIn order results, ?_, ?_⟩
    · have hall := List.map_congr_left fun job hjob => hentry job (horder.mem_iff.mp hjob)
      rw [← hall, hresults]
    · apply List.map_injective_iff.mpr (fun _ _ => Except.ok.inj)
      rw [← hdb, List.map_map, List.map_congr_left hentry]
      rfl
  · rintro ⟨entryOf, hloaded, rfl⟩
    obtain ⟨hall, rfl⟩ := Prod.mk.inj hloaded
    have hentry : ∀ job ∈ LoadJob.ofConfig config,
        resultOf order results job = .ok (entryOf job) := by
      intro job hjob
      exact List.map_inj_left.mp (hresults.trans hall) job (horder.mem_iff.mpr hjob)
    have hdb : (LoadJob.ofConfig config).mapM (resultOf order results) =
        .ok ((LoadJob.ofConfig config).map entryOf) := by
      rw [mapM_eq_ok_iff, List.map_map, List.map_congr_left hentry]
      rfl
    rw [hdb]
    rfl

theorem cached_of_loadAll {jobs : List LoadJob} {entryOf : LoadJob → Entry}
    (h : loadAll config jobs files = (jobs.map fun job => .ok (entryOf job), files')) :
    files.Extends files' ∧ ∀ job ∈ jobs, Entry.Cached config job files' (entryOf job) := by
  induction jobs generalizing files with
  | nil =>
    cases h
    exact ⟨.refl _, nofun⟩
  | cons job jobs ih =>
    rw [loadAll_cons] at h
    obtain ⟨hresults, hfiles⟩ := Prod.mk.inj h
    obtain ⟨hfirst, hrest⟩ := List.cons.inj hresults
    obtain ⟨hext, hcached⟩ := Entry.cached_of_load (Prod.ext hfirst rfl)
    obtain ⟨hext', hall⟩ := ih (Prod.ext hrest hfiles)
    refine ⟨hext.trans hext', fun other hother => ?_⟩
    rcases List.mem_cons.mp hother with rfl | hmem
    · exact hcached.later hext'
    · exact hall other hmem

theorem loadAll_of_cached {jobs : List LoadJob} {entryOf : LoadJob → Entry}
    (h : ∀ job ∈ jobs, Entry.Cached config job files (entryOf job)) :
    loadAll config jobs files = (jobs.map fun job => .ok (entryOf job), files) := by
  induction jobs with
  | nil => rfl
  | cons job jobs ih =>
    rw [loadAll_cons, Entry.load_of_cached (h job List.mem_cons_self)]
    dsimp only
    rw [ih fun other hother => h other (List.mem_cons_of_mem _ hother)]
    rfl

theorem loadIn_loaded (horder : order.Perm (LoadJob.ofConfig config))
    (horder' : order'.Perm (LoadJob.ofConfig config))
    (h : loadIn config order files = (.ok db, files'))
    (hkept : ∀ job ∈ LoadJob.ofConfig config, ∀ run ∈ config.testRuns,
      later.open? (job.snapshotPath config run) = files'.open? (job.snapshotPath config run)) :
    loadIn config order' later = (.ok db, later) := by
  obtain ⟨entryOf, hloaded, hdb⟩ := (loadIn_eq_ok horder).mp h
  refine (loadIn_eq_ok horder').mpr ⟨entryOf, loadAll_of_cached fun job hjob => ?_, hdb⟩
  have hmem := horder'.mem_iff.mp hjob
  obtain ⟨runs, hentry, hruns⟩ := (cached_of_loadAll hloaded).2 job (horder.mem_iff.mpr hmem)
  obtain ⟨hlength, hcached⟩ := List.forall₂_iff_zip.mp hruns
  refine ⟨runs, hentry, List.forall₂_iff_zip.mpr ⟨hlength, fun hzip => ?_⟩⟩
  obtain ⟨bytes, hopen, hbytes⟩ := hcached hzip
  exact ⟨bytes, (hkept job hmem _ (List.of_mem_zip hzip).1).trans hopen, hbytes⟩

/-- A run that cannot be loaded changes nothing, and one that is loaded changes nothing but that its
snapshot may be added, which holds what was loaded. It is only added for a run that could be read.
So a database that has been loaded is loaded again, by jobs in any order, as long as the snapshots
stay. -/
theorem load_reproduces (config : PlotConfig) :
    (∀ job run files,
      (∃ f, RunData.load config job run files = (.error f, files)) ∨
        ∃ r files', RunData.load config job run files = (.ok r, files') ∧
          RunData.Cached config job run files' r ∧
          (files' = files ∨ (RunData.readRun config job run files).1 = .ok r ∧
            ∃ location, files.resolve (job.snapshotPath config run) = .ok location ∧
              files.entry? location = none ∧
              files' = files.put location (.packed r.snapshot))) ∧
    loadIn config (LoadJob.ofConfig config) = load config ∧
    ∀ order order' files files' later db, order.Perm (LoadJob.ofConfig config) →
      order'.Perm (LoadJob.ofConfig config) → loadIn config order files = (.ok db, files') →
      (∀ job ∈ LoadJob.ofConfig config, ∀ run ∈ config.testRuns,
        later.open? (job.snapshotPath config run) = files'.open? (job.snapshotPath config run)) →
      loadIn config order' later = (.ok db, later) := by
  refine ⟨RunData.load_cases config, loadIn_ofConfig config, ?_⟩
  intro order order' files files' later db horder horder' h hkept
  exact loadIn_loaded horder horder' h hkept

/-- A run that is loaded twice from one result file, and again when the result file is gone. -/
def repeatedRun : PlotConfig where
  resultsDir := "r"
  testRuns := [1, 1]
  figures := [.throughputBars "b" [sharedMetric false] "x" false]

def resultPlace : Location :=
  ["w.json", "run_1", "rw-nc200-bs1-rs16-nf1-wr100-iat0", "kawkab", "r"]

def resultFile : FileEntry :=
  .plain (Utf8.encode
    "opsPs:1 thrMBps:2 recsPs:3 meanLat:4 50%Lat:5 95%Lat:6 99%Lat:7 minLat:8 maxLat:9")

def resultTree : Files :=
  ⟨[(["r"], .directory), (["kawkab", "r"], .directory), (resultPlace.tail.tail, .directory),
    (resultPlace.tail, .directory), (resultPlace, resultFile)]⟩

def withoutResult (files : Files) : Files := ⟨files.entries.filter (·.1 != resultPlace)⟩

theorem load_reproduces_withoutResult :
    ∃ db files', load repeatedRun resultTree = (.ok db, files') ∧
      Files.entry? (withoutResult files') resultPlace = none ∧
      load repeatedRun (withoutResult files') = (.ok db, withoutResult files') := by
  obtain ⟨-, hofConfig, hagain⟩ := load_reproduces repeatedRun
  have hrun : (load repeatedRun resultTree).1.isOk ∧
      Files.entry? (withoutResult (load repeatedRun resultTree).2) resultPlace = none ∧
      ∀ job ∈ LoadJob.ofConfig repeatedRun, ∀ run ∈ repeatedRun.testRuns,
        (withoutResult (load repeatedRun resultTree).2).open? (job.snapshotPath repeatedRun run) =
          (load repeatedRun resultTree).2.open? (job.snapshotPath repeatedRun run) := by
    decide +kernel
  generalize hload : load repeatedRun resultTree = loaded at hrun
  obtain ⟨result, files'⟩ := loaded
  obtain ⟨hok, hgone, hkept⟩ := hrun
  obtain ⟨db, rfl⟩ := exists_eq_ok_of_isOk hok
  refine ⟨db, files', rfl, hgone, ?_⟩
  rw [← hofConfig] at hload ⊢
  exact hagain _ _ _ _ _ _ (.refl _) (.refl _) hload hkept

end Database

end ClusterBench
