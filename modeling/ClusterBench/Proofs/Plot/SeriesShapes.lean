import ClusterBench.Proofs.Plot.Charts
import ClusterBench.Proofs.Plot.Snapshots

/-!
# Shapes of series

Each value of a series needs a place to be drawn at, and half a confidence interval if there are
any. Series of samples have them by construction. A timeline takes its places and its values from
two lists of a histogram file, so it has them exactly if these lists are equally long.
-/

namespace ClusterBench

namespace Series

variable {α : Type} [Arithmetic α]

/-- Every value has a place, and half a confidence interval if there are any. -/
structure WellFormed (s : Series α) : Prop where
  x : s.x.length = s.y.length
  ci : ∀ ci ∈ s.ci, ci.length = s.y.length

omit [Arithmetic α] in
theorem wellFormed_ofSamples (label : String) (samples : List (α × α × α)) :
    (ofSamples label samples).WellFormed := by
  constructor <;> simp [ofSamples]

theorem wellFormed_of_latencyCdf {label : String} {h : Histogram} {scale : α} {s : Series α}
    (hs : latencyCdf label h scale = .ok s) : s.WellFormed := by
  obtain ⟨_, -, hpure⟩ := bind_eq_ok.mp hs
  cases hpure
  constructor <;> simp

theorem length_zeroEnds (ys : List α) : (zeroEnds ys).length = ys.length := by
  unfold zeroEnds
  split
  · rfl
  · rfl
  · next first rest hne =>
    have hpos : 0 < rest.length := List.length_pos_iff.mpr hne
    simp only [List.length_cons, List.length_append, List.length_dropLast, List.length_nil]
    omega

theorem wellFormed_throughputTimeline_iff (label : String) (times counts : List α) (offset : α)
    (zero : Bool) : (throughputTimeline label times counts offset zero).WellFormed ↔
      times.length = counts.length := by
  have hy : (throughputTimeline label times counts offset zero).y.length = counts.length := by
    unfold throughputTimeline
    dsimp only
    split_ifs
    · rw [length_zeroEnds, List.length_map]
    · rw [List.length_map]
  constructor
  · intro h
    rw [← hy, ← h.x]
    exact (List.length_map _).symm
  · intro h
    exact ⟨(List.length_map _).trans (h.trans hy.symm), nofun⟩

theorem wellFormed_of_mem_cacheTimeline {log : CacheLog} {s : Series Binary64}
    (h : s ∈ cacheTimeline log) : s.WellFormed := by
  have hcolumn (label : String) (column : CacheSample → Binary64) :
      (⟨label, log.map CacheSample.time, log.map column, none⟩ : Series Binary64).WellFormed :=
    ⟨by simp, nofun⟩
  simp only [cacheTimeline, List.mem_cons, List.not_mem_nil, or_false] at h
  rcases h with rfl | rfl | rfl | rfl
  all_goals exact hcolumn _ _

variable {db : Database} {config : PlotConfig} {metrics : List Metric}

theorem wellFormed_of_line {latency : Latency} {metric : Metric} {point : Point}
    {s : Series Binary64} (h : line db config latency metric point = .ok s) : s.WellFormed := by
  obtain ⟨samples, -, hsamples⟩ := bind_eq_ok.mp h
  cases hsamples
  exact wellFormed_ofSamples _ samples

theorem wellFormed_of_latencyThroughput {latency : Latency} {series : List (Series Binary64)}
    (h : latencyThroughput db config metrics latency = .ok series) :
    ∀ s ∈ series, s.WellFormed := by
  rw [latencyThroughput_eq] at h
  obtain ⟨lines, hlines, hpure⟩ := bind_eq_ok.mp h
  cases hpure
  have hall : ∀ line ∈ lines, ∀ s ∈ line, s.WellFormed :=
    forall_mem_of_mapM_eq_ok hlines fun metric line hline =>
      forall_mem_of_mapM_eq_ok hline fun point s => wellFormed_of_line
  intro s hs
  obtain ⟨line, hline, hmem⟩ := List.mem_flatten.mp hs
  exact hall line hline s hmem

theorem wellFormed_of_throughputBars {series : List (Series Binary64)}
    (h : throughputBars db config metrics = .ok series) : ∀ s ∈ series, s.WellFormed := by
  refine forall_mem_of_mapM_eq_ok h fun metric s hs => ?_
  obtain ⟨samples, -, hsamples⟩ := bind_eq_ok.mp hs
  cases hsamples
  exact wellFormed_ofSamples _ samples

end Series

def HistogramFile.loadTputLog (path : String) : Filing TputLog := do
  Filing.lift (← load path).tputLog

def TputLog.Paired (log : TputLog) : Prop := log.times.length = log.counts.length

/-- In the files from which a figure draws timelines, all throughput logs are pairs. -/
def Figure.LogsPaired (files : Files) : Figure → Prop
  | .timeline _ inputs _ _ => ∀ input ∈ inputs, ∀ log,
      (HistogramFile.loadTputLog input.path files).1 = .ok log → log.Paired
  | _ => True

namespace Chart

theorem timeline_eq (input : TimelineInput) : timeline input = do
    let log ← HistogramFile.loadTputLog input.path
    return Series.throughputTimeline input.label log.times log.counts input.offset
      input.zeroEnds := by
  unfold timeline HistogramFile.loadTputLog
  rw [bind_assoc]

variable {config : PlotConfig} {db : Database} {figure : Figure} {files files' : Files}
  {charts : List Chart}

theorem readsTexts_latencyCdf (input : HistogramInput) : (latencyCdf input).ReadsTexts :=
  .bind ((HistogramFile.readsTexts_ofRun _).within _) fun _ => .lift _

theorem readsTexts_timeline (input : TimelineInput) : (timeline input).ReadsTexts :=
  .bind (HistogramFile.readsTexts_load _) fun _ => .bind (.lift _) fun _ => .pure _

theorem wellFormed_of_latencyCdf {input : HistogramInput} {s : Series Binary64}
    (h : (latencyCdf input files).1 = .ok s) : s.WellFormed := by
  obtain ⟨histogram, later, -, hlift⟩ := bind_apply_eq_ok.mp (Prod.ext h rfl)
  exact Series.wellFormed_of_latencyCdf (congrArg Prod.fst hlift)

theorem timeline_eq_ok {input : TimelineInput} {s : Series Binary64}
    (h : (timeline input files).1 = .ok s) : ∃ log,
      (HistogramFile.loadTputLog input.path files).1 = .ok log ∧
        s = Series.throughputTimeline input.label log.times log.counts input.offset
          input.zeroEnds := by
  rw [timeline_eq] at h
  obtain ⟨log, later, hlog, hpure⟩ := bind_apply_eq_ok.mp (Prod.ext h rfl)
  cases hpure
  exact ⟨log, by rw [hlog], rfl⟩

/-- All series that are drawn have their shape, exactly if all throughput logs that are drawn have
as many times as counts. -/
theorem wellFormed_iff (h : ofFigure config db figure files = (.ok charts, files')) :
    (∀ chart ∈ charts, ∀ s ∈ chart.series, s.WellFormed) ↔ figure.LogsPaired files := by
  cases figure with
  | latencyThroughput name metrics latencies logY yMax =>
    refine iff_of_true ?_ trivial
    refine forall_mem_of_mapM_eq_ok (congrArg Prod.fst h) fun latency chart hchart => ?_
    obtain ⟨series, hseries, hpure⟩ := bind_eq_ok.mp hchart
    cases hpure
    exact Series.wellFormed_of_latencyThroughput hseries
  | throughputBars name metrics xLabel logY =>
    refine iff_of_true ?_ trivial
    obtain ⟨series, later, hseries, hpure⟩ := bind_apply_eq_ok.mp h
    cases hpure
    rw [List.forall_mem_singleton]
    exact Series.wellFormed_of_throughputBars (congrArg Prod.fst hseries)
  | latencyCdf name inputs logX =>
    refine iff_of_true ?_ trivial
    obtain ⟨series, later, hseries, hpure⟩ := bind_apply_eq_ok.mp h
    cases hpure
    rw [List.forall_mem_singleton]
    have hall := forall₂_of_mapM_apply (fun input => (readsTexts_latencyCdf input).keeps) hseries
    exact forall_mem_of_forall₂ hall fun input s => wellFormed_of_latencyCdf
  | timeline name inputs xMax yMax =>
    obtain ⟨series, later, hseries, hpure⟩ := bind_apply_eq_ok.mp h
    cases hpure
    rw [List.forall_mem_singleton]
    have hall := forall₂_of_mapM_apply (fun input => (readsTexts_timeline input).keeps) hseries
    refine (forall_mem_iff_of_forall₂ (hall.imp fun input s hs => ?_)).symm
    obtain ⟨log, hlog, rfl⟩ := timeline_eq_ok hs
    rw [Series.wellFormed_throughputTimeline_iff, hlog]
    simp [TputLog.Paired]
  | cacheTimeline name path startDiff xMax =>
    refine iff_of_true ?_ trivial
    obtain ⟨log, later, -, hpure⟩ := bind_apply_eq_ok.mp h
    cases hpure
    rw [List.forall_mem_singleton]
    exact fun s => Series.wellFormed_of_mem_cacheTimeline

/-- A throughput log with a time too many. -/
def unpairedFigure : Figure := .timeline "tput" [⟨"Kawkab", "h", .zero, false⟩] none none

def unpairedFiles : Files :=
  ⟨[(["h"], .plain (Utf8.encode
    "[\x7b\"TputLog\":\x7b\"TimeSec\":[1,2,3],\"Counts\":[4,5]\x7d\x7d]"))]⟩

theorem wellFormed_iff_unpaired :
    ∃ charts files', ofFigure {} [] unpairedFigure unpairedFiles = (.ok charts, files') ∧
      ∃ chart ∈ charts, ∃ s ∈ chart.series, ¬ s.WellFormed := by
  have hrun : (ofFigure {} [] unpairedFigure unpairedFiles).1.isOk ∧
      ((HistogramFile.loadTputLog "h" unpairedFiles).1.toOption.any fun log =>
        log.times.length != log.counts.length) := by
    decide +kernel
  obtain ⟨hok, hlog⟩ := hrun
  rcases h : ofFigure {} [] unpairedFigure unpairedFiles with ⟨result, files'⟩
  rw [h] at hok
  obtain ⟨charts, rfl⟩ := exists_eq_ok_of_isOk hok
  refine ⟨charts, files', rfl, ?_⟩
  by_contra! hall
  have hpaired := (wellFormed_iff h).mp hall ⟨"Kawkab", "h", .zero, false⟩ List.mem_cons_self
  cases hresult : (HistogramFile.loadTputLog "h" unpairedFiles).1 with
  | error f =>
    rw [hresult] at hlog
    cases hlog
  | ok log =>
    rw [hresult] at hlog
    exact bne_iff_ne.mp hlog (hpaired log hresult)

end Chart

end ClusterBench
