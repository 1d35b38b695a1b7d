import ClusterBench.Plot.Chart
import ClusterBench.Proofs.Plot.Loading

/-!
# Charts of loaded results

Loading a configuration is enough to draw its figures: everything that a figure looks up has been
loaded, so it draws a sample for each test that it asks for, and no result is missing.
-/

namespace ClusterBench

namespace FailsOnly

variable {α : Type} {p : Cause → Prop}

theorem lift {result : Except Failure α} (h : ∀ f, result = .error f → p f.cause) :
    FailsOnly p (Filing.lift result) := fun _ => h

theorem within {x : Filing α} (hx : FailsOnly p x) (context : String) :
    FailsOnly p (Filing.within context x) := by
  intro files f h
  unfold Filing.within at h
  rcases hrun : x files with ⟨e | a, files'⟩
  · rw [hrun] at h
    cases h
    exact hx files e (by rw [hrun])
  · rw [hrun] at h
    cases h

theorem ask (hp : ∀ fault, p (.file fault)) (look : Files → Except FileFault α) :
    FailsOnly p (Filing.ask look) := by
  intro files f h
  unfold Filing.ask at h
  cases hlook : look files with
  | ok value => simp [hlook] at h
  | error fault =>
    simp only [hlook, Except.error.injEq] at h
    rw [← h]
    exact hp fault

end FailsOnly

def Cause.MissesResults (cause : Cause) : Prop := ∃ id file, cause = .refused (.noResults id file)

/-- What is read from files is not looked up in a database. -/
def FindsAll {α : Type} (x : Filing α) : Prop := FailsOnly (¬ ·.MissesResults) x

theorem HistogramFile.findsAll_load (path : String) : FindsAll (HistogramFile.load path) := by
  refine ((FailsOnly.ask (fun fault => ?_) _).within _).bind fun text =>
    (FailsOnly.lift fun f h => ?_).within _
  · rintro ⟨_, _, ⟨⟩⟩
  · unfold HistogramFile.ofText at h
    split at h <;> cases h
    rintro ⟨_, _, ⟨⟩⟩

theorem HistogramFile.findsAll_histogram (file : HistogramFile) :
    FindsAll (Filing.lift file.histogram) := by
  refine FailsOnly.lift fun f h => ?_
  rintro ⟨id, name, hcause⟩
  unfold histogram firstEntry at h
  rcases file with _ | ⟨entry, _⟩
  · cases h
    cases hcause
  · rw [ok_bind] at h
    cases hlatencies : entry.latencies with
    | none =>
      rw [hlatencies] at h
      cases h
      cases hcause
    | some buckets =>
      simp only [hlatencies, Histogram.ofBuckets] at h
      split_ifs at h
      cases h
      cases hcause

theorem HistogramFile.findsAll_tputLog (file : HistogramFile) :
    FindsAll (Filing.lift file.tputLog) := by
  refine FailsOnly.lift fun f h => ?_
  rintro ⟨id, name, hcause⟩
  unfold tputLog firstEntry at h
  rcases file with _ | ⟨entry, _⟩
  · cases h
    cases hcause
  · rw [ok_bind] at h
    cases hlog : entry.tputLog with
    | none =>
      rw [hlog] at h
      cases h
      cases hcause
    | some log =>
      rw [hlog] at h
      cases h

theorem HistogramFile.findsAll_ofRun (runDir : String) : FindsAll (HistogramFile.ofRun runDir) :=
  (findsAll_load _).bind fun _ => (findsAll_histogram _).bind fun _ =>
    (findsAll_load _).bind fun _ => (findsAll_histogram _).bind fun _ => .pure _

theorem Series.findsAll_latencyCdf (label : String) (h : Histogram) (scale : Binary64) :
    FindsAll (Filing.lift (latencyCdf label h scale)) := by
  refine FailsOnly.lift fun f hf => ?_
  rintro ⟨id, name, hcause⟩
  unfold latencyCdf Histogram.total at hf
  cases hcount : inWord h.count with
  | ok n =>
    rw [hcount] at hf
    cases hf
  | error g =>
    obtain ⟨-, rfl⟩ := inWord_eq_error.mp hcount
    rw [hcount] at hf
    cases hf
    cases hcause

theorem CacheLog.findsAll_load (path : String) (startDiff : ℕ) :
    FindsAll (CacheLog.load path startDiff) := by
  have hfile (fault : FileFault) : ¬ (Cause.file fault).MissesResults := by
    rintro ⟨_, _, ⟨⟩⟩
  refine ((FailsOnly.ask hfile _).within _).bind fun entry => FailsOnly.within ?_ _
  refine FailsOnly.bind (FailsOnly.lift fun f h => ?_) fun bytes => FailsOnly.lift fun f h => ?_
  · cases hbytes : entry.bytes with
    | ok bytes =>
      rw [hbytes] at h
      cases h
    | error fault =>
      rw [hbytes] at h
      cases h
      exact hfile fault
  · obtain ⟨row, -, hrow⟩ := exists_of_mapM_eq_error h
    rintro ⟨id, name, hcause⟩
    cases row with
    | error fault =>
      cases hrow
      cases hcause
    | ok fields =>
      simp only [sample] at hrow
      split at hrow <;> cases hrow
      cases hcause

def Database.Finds (db : Database) (config : PlotConfig) (metrics : List Metric) : Prop :=
  ∀ metric ∈ metrics, ∀ point ∈ metric.points, ∀ iat ∈ point.iats, ∃ entry,
    db.get? (config.testId metric point iat) (some point.resFile) = some entry

theorem Database.finds_of_load {config : PlotConfig} {files files' : Files} {db : Database}
    (hload : load config files = (.ok db, files')) {figure : Figure}
    (hfigure : figure ∈ config.figures) : db.Finds config figure.metrics := by
  intro metric hmetric point hpoint iat hiat
  obtain ⟨before, loaded, after, heq, hloaded, hafter, -⟩ :=
    LoadJob.exists_loaded (LoadJob.mem_asked hfigure hmetric hpoint hiat)
  have hall := load_eq_ok hload
  rw [heq] at hall
  obtain ⟨entry, -, hget, -⟩ := get?_of_load hall hloaded hafter
  exact ⟨entry, hget⟩

namespace Series

/-- A series has exactly one sample `(x, y, ci)` for each of some things. -/
def HoldsEach {τ : Type} (sample : τ → Binary64 × Binary64 × Binary64 → Prop) (label : String)
    (things : List τ) (s : Series Binary64) : Prop :=
  s.label = label ∧ ∃ ci, s.ci = some ci ∧ s.x.length = things.length ∧
    s.y.length = things.length ∧ ci.length = things.length ∧
    List.Forall₂ sample things (s.x.zip (s.y.zip ci))

theorem holdsEach_ofSamples {τ : Type} {sample : τ → Binary64 × Binary64 × Binary64 → Prop}
    {things : List τ} {samples : List (Binary64 × Binary64 × Binary64)} (label : String)
    (h : List.Forall₂ sample things samples) :
    HoldsEach sample label things (ofSamples label samples) := by
  have hlength := h.length_eq
  refine ⟨rfl, _, rfl, ?_, ?_, ?_, ?_⟩
  · simp [ofSamples, hlength]
  · simp [ofSamples, hlength]
  · simp [hlength]
  · have hzip : (ofSamples label samples).x.zip ((ofSamples label samples).y.zip
        (samples.map (·.2.2))) = samples := by
      simp [ofSamples, List.zip_map']
    rwa [hzip]

def latencySample (latency : Latency) (s : Summary Binary64) : Binary64 × Binary64 × Binary64 :=
  let lat := (s.latency latency).scaled microsPerMilli
  ((s.recordsTput.scaled million).mean, lat.mean, lat.ci)

def throughputSample (value : ℕ) (s : Summary Binary64) : Binary64 × Binary64 × Binary64 :=
  let tput := s.recordsTput.scaled million
  (Binary64.ofNat value, tput.mean, tput.ci)

variable (db : Database) (config : PlotConfig)

/-- The line of a point: for each inter-arrival time the sample of the result that is found. -/
def IsLine (latency : Latency) (line : Metric × Point) (s : Series Binary64) : Prop :=
  HoldsEach
    (fun iat sample => ∃ entry,
      db.get? (config.testId line.1 line.2 iat) (some line.2.resFile) = some entry ∧
        sample = latencySample latency entry.summary)
    s!"{line.1.label} {line.2.val}" line.2.iats s

def IsBar (metric : Metric) (point : Point) (sample : Binary64 × Binary64 × Binary64) : Prop :=
  ∃ iat ∈ point.iats.head?, ∃ entry,
    db.get? (config.testId metric point iat) (some point.resFile) = some entry ∧
      sample = throughputSample point.val entry.summary

def IsBars (metric : Metric) (s : Series Binary64) : Prop :=
  HoldsEach (IsBar db config metric) metric.label metric.points s

variable {db config}

theorem summaryOf_of_get? {metric : Metric} {point : Point} {iat : Binary64} {entry : Entry}
    (h : db.get? (config.testId metric point iat) (some point.resFile) = some entry) :
    summaryOf db config metric point iat = .ok entry.summary := by
  unfold summaryOf
  dsimp only
  rw [h]

def line (db : Database) (config : PlotConfig) (latency : Latency) (metric : Metric)
    (point : Point) : Except Failure (Series Binary64) := do
  let samples ← point.iats.mapM fun iat => do
    return latencySample latency (← summaryOf db config metric point iat)
  return ofSamples s!"{metric.label} {point.val}" samples

def bar (db : Database) (config : PlotConfig) (metric : Metric) (point : Point) :
    Except Failure (Binary64 × Binary64 × Binary64) :=
  match point.iats with
  | [] => .error (.refuse (.pointWithoutIat point.val metric.label))
  | iat :: _ => do return throughputSample point.val (← summaryOf db config metric point iat)

theorem latencyThroughput_eq (metrics : List Metric) (latency : Latency) :
    latencyThroughput db config metrics latency = do
      return (← metrics.mapM fun metric =>
        metric.points.mapM (line db config latency metric)).flatten := rfl

theorem throughputBars_eq (metrics : List Metric) :
    throughputBars db config metrics = metrics.mapM fun metric => do
      return ofSamples metric.label (← metric.points.mapM (bar db config metric)) := rfl

theorem line_of_finds {metric : Metric} {point : Point} (latency : Latency)
    (h : ∀ iat ∈ point.iats, ∃ entry,
      db.get? (config.testId metric point iat) (some point.resFile) = some entry) :
    ∃ s, line db config latency metric point = .ok s ∧
      IsLine db config latency (metric, point) s := by
  have hsample : ∀ iat ∈ point.iats, ∃ sample,
      (do return latencySample latency (← summaryOf db config metric point iat)) =
        Except.ok sample ∧ ∃ entry,
          db.get? (config.testId metric point iat) (some point.resFile) = some entry ∧
            sample = latencySample latency entry.summary := by
    intro iat hiat
    obtain ⟨entry, hget⟩ := h iat hiat
    rw [summaryOf_of_get? hget]
    exact ⟨_, rfl, entry, hget, rfl⟩
  obtain ⟨samples, hsamples, hall⟩ := exists_mapM_eq_ok hsample
  refine ⟨_, ?_, holdsEach_ofSamples s!"{metric.label} {point.val}" hall⟩
  rw [line, hsamples]
  rfl

theorem latencyThroughput_of_finds {metrics : List Metric} (h : db.Finds config metrics)
    (latency : Latency) :
    ∃ series, latencyThroughput db config metrics latency = .ok series ∧
      List.Forall₂ (IsLine db config latency)
        (metrics.flatMap fun metric => metric.points.map (metric, ·)) series := by
  have hlines : ∀ metric ∈ metrics, ∃ series,
      metric.points.mapM (line db config latency metric) = .ok series ∧
        List.Forall₂ (IsLine db config latency) (metric.points.map (metric, ·)) series := by
    intro metric hmetric
    obtain ⟨series, hseries, hall⟩ := exists_mapM_eq_ok fun point hpoint =>
      line_of_finds latency (h metric hmetric point hpoint)
    exact ⟨series, hseries, List.forall₂_map_left_iff.mpr hall⟩
  obtain ⟨lines, hok, hall⟩ := exists_mapM_eq_ok hlines
  refine ⟨lines.flatten, ?_, ?_⟩
  · rw [latencyThroughput_eq, hok]
    rfl
  · rw [List.flatMap_def]
    exact List.rel_flatten (List.forall₂_map_left_iff.mpr hall)

theorem bar_cases {metric : Metric} {point : Point}
    (h : ∀ iat ∈ point.iats, ∃ entry,
      db.get? (config.testId metric point iat) (some point.resFile) = some entry) :
    (∃ sample, bar db config metric point = .ok sample ∧ IsBar db config metric point sample) ∨
      ∃ f, bar db config metric point = .error f ∧
        point.iats = [] ∧ f = .refuse (.pointWithoutIat point.val metric.label) := by
  unfold bar
  cases hiats : point.iats with
  | nil => exact Or.inr ⟨_, rfl, rfl, rfl⟩
  | cons iat iats =>
    obtain ⟨entry, hget⟩ := h iat (hiats ▸ List.mem_cons_self)
    dsimp only
    rw [summaryOf_of_get? hget]
    exact Or.inl ⟨_, rfl, iat, by rw [hiats]; rfl, entry, hget, rfl⟩

theorem throughputBars_cases {metrics : List Metric} (h : db.Finds config metrics) :
    (∃ series, throughputBars db config metrics = .ok series ∧
      List.Forall₂ (IsBars db config) metrics series) ∨
    ∃ f, throughputBars db config metrics = .error f ∧ ∃ metric ∈ metrics,
      ∃ point ∈ metric.points,
        point.iats = [] ∧ f = .refuse (.pointWithoutIat point.val metric.label) := by
  rw [throughputBars_eq]
  apply mapM_cases
  intro metric hmetric
  rcases mapM_cases fun point hpoint => bar_cases (h metric hmetric point hpoint) with
    ⟨samples, hok, hall⟩ | ⟨f, herror, hpoint⟩
  · exact Or.inl ⟨_, by rw [hok]; rfl, holdsEach_ofSamples metric.label hall⟩
  · exact Or.inr ⟨f, by rw [herror]; rfl, hpoint⟩

end Series

namespace Chart

variable {config : PlotConfig} {files files' : Files} {db : Database}

theorem ofFigure_lines {metrics : List Metric} (h : db.Finds config metrics) (name : String)
    (latencies : List Latency) (logY : Bool) (yMax : Option Binary64) (later : Files) :
    ∃ charts, ofFigure config db (.latencyThroughput name metrics latencies logY yMax) later =
        (.ok charts, later) ∧
      List.Forall₂ (fun latency chart => List.Forall₂ (Series.IsLine db config latency)
        (metrics.flatMap fun metric => metric.points.map (metric, ·)) chart.series)
        latencies charts := by
  have hchart : ∀ latency ∈ latencies, ∃ chart,
      latencyThroughput db config name metrics logY yMax latency = .ok chart ∧
        List.Forall₂ (Series.IsLine db config latency)
          (metrics.flatMap fun metric => metric.points.map (metric, ·)) chart.series := by
    intro latency _
    obtain ⟨series, hok, hall⟩ := Series.latencyThroughput_of_finds h latency
    exact ⟨_, by rw [latencyThroughput, hok]; rfl, hall⟩
  obtain ⟨charts, hok, hall⟩ := exists_mapM_eq_ok hchart
  exact ⟨charts, by rw [ofFigure, hok]; rfl, hall⟩

theorem ofFigure_bars {metrics : List Metric} (h : db.Finds config metrics) (name xLabel : String)
    (logY : Bool) (later : Files) :
    (∃ chart, ofFigure config db (.throughputBars name metrics xLabel logY) later =
        (.ok [chart], later) ∧ List.Forall₂ (Series.IsBars db config) metrics chart.series) ∨
      ∃ metric ∈ metrics, ∃ point ∈ metric.points, point.iats = [] ∧
        ofFigure config db (.throughputBars name metrics xLabel logY) later =
          (.error (.refuse (.pointWithoutIat point.val metric.label)), later) := by
  rcases Series.throughputBars_cases h with
    ⟨series, hok, hall⟩ | ⟨f, herror, metric, hmetric, point, hpoint, hiats, rfl⟩
  · exact Or.inl ⟨_, by rw [ofFigure, hok]; rfl, hall⟩
  · exact Or.inr ⟨metric, hmetric, point, hpoint, hiats, by rw [ofFigure, herror]; rfl⟩

theorem findsAll_ofFigure {figure : Figure} (h : db.Finds config figure.metrics) :
    FindsAll (ofFigure config db figure) := by
  have hpure {α : Type} (a : α) : FindsAll (pure a) := FailsOnly.pure a
  cases figure with
  | latencyThroughput name metrics latencies logY yMax =>
    have h : db.Finds config metrics := h
    intro later f hf
    obtain ⟨charts, hok, -⟩ := ofFigure_lines h name latencies logY yMax later
    rw [hok] at hf
    cases hf
  | throughputBars name metrics xLabel logY =>
    have h : db.Finds config metrics := h
    intro later f hf
    rcases ofFigure_bars h name xLabel logY later with
      ⟨chart, hok, -⟩ | ⟨metric, -, point, -, -, herror⟩
    · rw [hok] at hf
      cases hf
    · rw [herror] at hf
      cases hf
      rintro ⟨_, _, ⟨⟩⟩
  | latencyCdf name inputs logX =>
    refine FailsOnly.bind (FailsOnly.mapM (fun input => ?_) inputs) fun _ => hpure _
    exact ((HistogramFile.findsAll_ofRun input.runDir).within _).bind fun _ =>
      Series.findsAll_latencyCdf _ _ _
  | timeline name inputs xMax yMax =>
    refine FailsOnly.bind (FailsOnly.mapM (fun input => ?_) inputs) fun _ => hpure _
    exact (HistogramFile.findsAll_load input.path).bind fun file =>
      file.findsAll_tputLog.bind fun _ => hpure _
  | cacheTimeline name path startDiff xMax =>
    exact (CacheLog.findsAll_load path startDiff).bind fun _ => hpure _

/-- A figure of loaded results is drawn: for each latency a chart with a line for each point, or a
chart with bars for each metric. Only bars of a point without an inter-arrival time cannot be drawn,
and what goes wrong is never that the results of a test are missing. -/
theorem ofFigure_of_load (hload : Database.load config files = (.ok db, files')) {figure : Figure}
    (hfigure : figure ∈ config.figures) (later : Files) :
    (∀ name metrics latencies logY yMax,
      figure = .latencyThroughput name metrics latencies logY yMax →
        ∃ charts, ofFigure config db figure later = (.ok charts, later) ∧
          List.Forall₂ (fun latency chart => List.Forall₂ (Series.IsLine db config latency)
            (metrics.flatMap fun metric => metric.points.map (metric, ·)) chart.series)
            latencies charts) ∧
    (∀ name metrics xLabel logY, figure = .throughputBars name metrics xLabel logY →
      (∃ chart, ofFigure config db figure later = (.ok [chart], later) ∧
        List.Forall₂ (Series.IsBars db config) metrics chart.series) ∨
      ∃ metric ∈ metrics, ∃ point ∈ metric.points, point.iats = [] ∧
        ofFigure config db figure later =
          (.error (.refuse (.pointWithoutIat point.val metric.label)), later)) ∧
    ∀ f, (ofFigure config db figure later).1 = .error f → ¬ f.cause.MissesResults := by
  have hfinds := Database.finds_of_load hload hfigure
  refine ⟨?_, ?_, findsAll_ofFigure hfinds later⟩
  · rintro name metrics latencies logY yMax rfl
    exact ofFigure_lines hfinds name latencies logY yMax later
  · rintro name metrics xLabel logY rfl
    exact ofFigure_bars hfinds name xLabel logY later

theorem ofFigure_of_load_bothKinds : ∃ db files',
    Database.load bothKinds bothSnapshots = (.ok db, files') ∧
      ∀ figure ∈ bothKinds.figures, ∃ charts,
        ofFigure bothKinds db figure files' = (.ok charts, files') := by
  obtain ⟨db, files', hload⟩ := exists_load_bothKinds
  refine ⟨db, files', hload, ?_⟩
  intro figure hfigure
  obtain ⟨hlines, hbars, -⟩ := ofFigure_of_load hload hfigure files'
  rcases List.mem_cons.mp hfigure with rfl | hfigure
  · obtain ⟨charts, hcharts, -⟩ := hlines _ _ _ _ _ rfl
    exact ⟨charts, hcharts⟩
  · cases List.mem_singleton.mp hfigure
    rcases hbars _ _ _ _ rfl with ⟨chart, hchart, -⟩ | ⟨metric, hmetric, point, hpoint, hiats, -⟩
    · exact ⟨[chart], hchart⟩
    · cases List.mem_singleton.mp hmetric
      cases List.mem_singleton.mp hpoint
      cases hiats

end Chart

end ClusterBench
