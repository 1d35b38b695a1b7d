import ClusterBench.Proofs.Json.Records
import ClusterBench.Proofs.Plot.Snapshots
import ClusterBench.Proofs.TestId.RoundTrip

/-!
# Reading dumps of results back

A dump of loaded results is read back entry by entry as long as all its numbers are finite. But a
mean of no values, or a text that says so, is not a number; it is dumped as null, and then the whole
dump is refused.
-/

namespace ClusterBench

open Json.Decoder

namespace MeanConf

def slots (m : MeanConf Binary64) : List (Slot (MeanConf Binary64)) :=
  [.of "mean" (fun x r => { r with mean := x }) (rereads_real m.mean),
   .of "ci" (fun x r => { r with ci := x }) (rereads_real m.ci)]

theorem rereads (m : MeanConf Binary64) : Rereads decode m.toJson m := by
  apply Rereads.of_slots m.slots
  · simp [slots, Slot.of, Slot.name, field]
  · rfl
  · rfl
  · rfl

end MeanConf

namespace RunData

def slots (r : RunData Binary64) : List (Slot (RunData Binary64)) :=
  [.of "OpsTput" (fun x r => { r with opsTput := x }) (rereads_real r.opsTput),
   .of "DataTput" (fun x r => { r with dataTput := x }) (rereads_real r.dataTput),
   .of "Records per second" (fun x r => { r with recordsTput := x }) (rereads_real r.recordsTput),
   .of "Mean latency" (fun x r => { r with meanLatency := x }) (rereads_real r.meanLatency),
   .of "Median latency" (fun x r => { r with medianLatency := x }) (rereads_real r.medianLatency),
   .of "95% latency" (fun x r => { r with p95Latency := x }) (rereads_real r.p95Latency),
   .of "99% latency" (fun x r => { r with p99Latency := x }) (rereads_real r.p99Latency),
   .of "Min latency" (fun x r => { r with minLatency := x }) (rereads_real r.minLatency),
   .of "Max latency" (fun x r => { r with maxLatency := x }) (rereads_real r.maxLatency)]

theorem rereads (r : RunData Binary64) : Rereads decode r.toJson r := by
  apply Rereads.of_slots r.slots
  · simp [slots, Slot.of, Slot.name, field]
  · rfl
  · rfl
  · simp only [slots, Slot.of, List.foldl_cons, List.foldl_nil]

theorem rereads_all (runs : List (RunData Binary64)) :
    Rereads (list decode) (.array (runs.map toJson)) runs :=
  rereads_list fun r _ => r.rereads

end RunData

namespace Summary

def slots (s : Summary Binary64) (h : s.runs < 2 ^ wordBits) : List (Slot (Summary Binary64)) :=
  [.of "runs" (fun x r => { r with runs := x }) (rereads_word h),
   .of "ops_tput" (fun x r => { r with opsTput := x }) s.opsTput.rereads,
   .of "data_tput" (fun x r => { r with dataTput := x }) s.dataTput.rereads,
   .of "records_tput" (fun x r => { r with recordsTput := x }) s.recordsTput.rereads,
   .of "mean_latency" (fun x r => { r with meanLatency := x }) s.meanLatency.rereads,
   .of "median_latency" (fun x r => { r with medianLatency := x }) s.medianLatency.rereads,
   .of "p95_latency" (fun x r => { r with p95Latency := x }) s.p95Latency.rereads,
   .of "p99_latency" (fun x r => { r with p99Latency := x }) s.p99Latency.rereads,
   .of "min_latency" (fun x r => { r with minLatency := x }) s.minLatency.rereads,
   .of "max_latency" (fun x r => { r with maxLatency := x }) s.maxLatency.rereads]

theorem rereads (s : Summary Binary64) (h : s.runs < 2 ^ wordBits) :
    Rereads decode s.toJson s := by
  apply Rereads.of_slots (s.slots h)
  · simp [slots, Slot.of, Slot.name, field]
  · rfl
  · rfl
  · simp only [slots, Slot.of, List.foldl_cons, List.foldl_nil]

end Summary

theorem DataStore.lookup_label (s : DataStore) : labels.lookup s.label = some s := by
  cases s <;> simp [labels, label, List.lookup]

namespace TestId

def slots (id : TestId) (h : id.FitsWords) : List (Slot TestId) :=
  [.of "system" (fun x r => { r with system := x }) (rereads_oneOf id.system.lookup_label),
   .of "prefix" (fun x r => { r with prefixText := x }) (rereads_text id.prefixText),
   .of "num_clients" (fun x r => { r with numClients := x }) (rereads_word h.numClients),
   .of "clients_per_machine" (fun x r => { r with clientsPerMachine := x })
     (rereads_word h.clientsPerMachine),
   .of "batch_size" (fun x r => { r with batchSize := x }) (rereads_word h.batchSize),
   .of "record_size" (fun x r => { r with recordSize := x }) (rereads_word h.recordSize),
   .of "files_per_client" (fun x r => { r with filesPerClient := x })
     (rereads_word h.filesPerClient),
   .of "write_ratio" (fun x r => { r with writeRatio := x }) (rereads_word h.writeRatio),
   .of "iat" (fun x r => { r with iat := x }) (rereads_real id.iat)]

theorem rereads (id : TestId) (h : id.FitsWords) : Rereads decode id.toJson id := by
  apply Rereads.of_slots (id.slots h)
  · simp [slots, Slot.of, Slot.name, field]
  · rfl
  · rfl
  · simp only [slots, Slot.of, List.foldl_cons, List.foldl_nil]

end TestId

namespace Entry

structure FitsWords (e : Entry) : Prop where
  testId : e.testId.FitsWords
  runs : e.summary.runs < 2 ^ wordBits

def slots (e : Entry) (h : e.FitsWords) : List (Slot Entry) :=
  [.of "key" (fun x r => { r with key := x }) (rereads_text e.key),
   .of "test_id" (fun x r => { r with testId := x }) (e.testId.rereads h.testId),
   .of "res_file" (fun x r => { r with resFile := x }) (rereads_text e.resFile),
   .of "runs" (fun x r => { r with runs := x }) (RunData.rereads_all e.runs),
   .of "summary" (fun x r => { r with summary := x }) (e.summary.rereads h.runs)]

theorem rereads (e : Entry) (h : e.FitsWords) : Rereads decode e.toJson e := by
  apply Rereads.of_slots (e.slots h)
  · simp [slots, Slot.of, Slot.name, field]
  · rfl
  · rfl
  · simp only [slots, Slot.of, List.foldl_cons, List.foldl_nil]

end Entry

structure PlotConfig.FitsWords (config : PlotConfig) : Prop where
  testId : ∀ figure ∈ config.figures, ∀ metric ∈ figure.metrics, ∀ point ∈ metric.points,
    ∀ iat ∈ point.iats, (config.testId metric point iat).FitsWords
  runs : config.testRuns.length < 2 ^ wordBits

theorem PlotConfig.FitsWords.of_mem {config : PlotConfig} (h : config.FitsWords) {job : LoadJob}
    (hjob : job ∈ LoadJob.ofConfig config) : job.testId.FitsWords := by
  rw [LoadJob.ofConfig, LoadJob.distinct_eq] at hjob
  have hasked := mem_of_mem_firstOccurrences hjob
  simp only [LoadJob.ofMetric, List.mem_flatMap, List.mem_map] at hasked
  obtain ⟨figure, hfigure, metric, hmetric, point, hpoint, iat, hiat, rfl⟩ := hasked
  exact h.testId figure hfigure metric hmetric point hpoint iat hiat

namespace Database

variable {config : PlotConfig} {files loaded dumped : Files} {db : Database} {directory : String}

theorem fitsWords_of_load (hfits : config.FitsWords) (h : load config files = (.ok db, loaded)) :
    ∀ e ∈ db, e.FitsWords := by
  intro e he
  obtain ⟨job, hjob, before, runs, hruns, rfl⟩ := exists_runs_of_mem (load_eq_ok h) he
  have hlength : runs.length = config.testRuns.length := length_of_mapM_apply (Prod.ext hruns rfl)
  refine ⟨hfits.of_mem hjob, ?_⟩
  change runs.length < 2 ^ wordBits
  rw [hlength]
  exact hfits.runs

theorem rereads (h : ∀ e ∈ db, e.FitsWords) : Rereads (list Entry.decode) db.toJson db :=
  rereads_list fun e he => e.rereads (h e he)

def readDump (directory : String) : Filing Database := do
  let entry ← Filing.within "deserialize open file"
    (Filing.ask (·.open? (joinPath directory "results.json")))
  Filing.within "deserialize json" do
    let entries := document (list Entry.decode) (Utf8.decode (← Filing.bytes entry))
    Filing.lift (entries.mapError fun fault => .of (.json fault))

theorem open?_of_dump (h : db.dump directory files = (.ok (), dumped)) :
    dumped.open? (joinPath directory "results.json") =
      .ok (.plain (Utf8.encode (db.toJson.write 0))) := by
  obtain ⟨⟨⟩, created, -, hwrite⟩ := bind_apply_eq_ok.mp h
  rw [Filing.within_eq_ok, Filing.within_eq_ok, Filing.change] at hwrite
  rcases hfile : created.write (joinPath directory "results.json")
    (.plain (Utf8.encode (db.toJson.write 0))) with f | written
  · rw [hfile] at hwrite
    cases hwrite
  · rw [hfile] at hwrite
    cases hwrite
    obtain ⟨-, -, -, hopen⟩ := Files.write_eq_ok hfile
    exact hopen

theorem ofDump_write (db : Database) :
    ofDump (db.toJson.write 0) = list Entry.decode .stream db.toJson.node :=
  document_write (list Entry.decode) db.toJson

/-- The file is read as the text that was written. -/
theorem readDump_of_dump (h : db.dump directory files = (.ok (), dumped)) :
    readDump directory dumped =
      ((ofDump (db.toJson.write 0)).mapError fun fault => ⟨["deserialize json"], .json fault⟩,
        dumped) := by
  have htext : document (list Entry.decode) (symbols (db.toJson.write 0)) =
      ofDump (db.toJson.write 0) := rfl
  rw [readDump, bind_apply, Filing.within_apply, Filing.ask, open?_of_dump h]
  dsimp only [Except.mapError]
  rw [Filing.within_apply, bind_apply, Filing.bytes, FileEntry.bytes, Filing.lift]
  dsimp only [Except.mapError]
  rw [Utf8.decode_encode, htext]
  cases ofDump (db.toJson.write 0) with
  | error fault => rfl
  | ok entries => rfl

/-- Every database that has been loaded and dumped is read back entry by entry if all its numbers
are finite, and refused otherwise. It is assumed that a finite number is read as it is written. -/
theorem readDump_eq (hfits : config.FitsWords) (hload : load config files = (.ok db, loaded))
    (hdump : db.dump directory loaded = (.ok (), dumped))
    (hexact : ∀ x ∈ db.toJson.reals, x.isFinite → ofText real x.jsonText = .ok x) :
    ((∀ x ∈ db.toJson.reals, x.isFinite) → readDump directory dumped = (.ok db, dumped)) ∧
      ((∃ x ∈ db.toJson.reals, ¬x.isFinite) → readDump directory dumped =
        (.error ⟨["deserialize json"], .json .shape⟩, dumped)) := by
  have h := rereads (fitsWords_of_load hfits hload)
  rw [readDump_of_dump hdump, ofDump_write]
  constructor
  · intro hfinite
    rw [h.of_finite hexact hfinite]
    rfl
  · rintro ⟨x, hx, hnot⟩
    rw [h.of_not_finite hexact fun hfinite => hnot (hfinite x hx)]
    rfl

/-- A client without a request has no mean latency. -/
def idleConfig : PlotConfig where
  resultsDir := "r"
  figures := [.throughputBars "b" [sharedMetric false] "x" false]

def idleResult : String :=
  "\"opsPs\":0, \"thrMBps\":0, \"recsPs\":0, \"meanLat\":NaN, \"50%Lat\":0, \"95%Lat\":0, " ++
    "\"99%Lat\":0, \"minLat\":0, \"maxLat\":0"

def idleFiles : Files :=
  let location := ["run_1", "rw-nc200-bs1-rs16-nf1-wr100-iat0", "kawkab", "r"]
  ⟨[(["r"], .directory), (["kawkab", "r"], .directory), (location.tail, .directory),
    (location, .directory), ("w.json" :: location, .plain (Utf8.encode idleResult))]⟩

theorem idleConfig_fitsWords : idleConfig.FitsWords := by
  refine ⟨?_, by decide⟩
  simp only [idleConfig, sharedMetric, sharedPoint, Figure.metrics, List.forall_mem_singleton]
  constructor <;> decide +kernel

theorem exists_load_idle : ∃ db loaded dumped, load idleConfig idleFiles = (.ok db, loaded) ∧
    db.dump "out" loaded = (.ok (), dumped) ∧ (∃ x ∈ db.toJson.reals, ¬x.isFinite) ∧
      ∀ x ∈ db.toJson.reals, x.isFinite → x = .zero := by
  have hrun : (load idleConfig idleFiles).1.toOption.any fun db =>
      (db.dump "out" (load idleConfig idleFiles).2).1.isOk &&
        db.toJson.reals.any (!·.isFinite) &&
        db.toJson.reals.all fun x => !x.isFinite || x == .zero := by
    decide +kernel
  rcases hload : load idleConfig idleFiles with ⟨f | db, loaded⟩
  · rw [hload] at hrun
    cases hrun
  · rw [hload] at hrun
    simp only [Except.toOption, Option.any_some, Bool.and_eq_true, List.any_eq_true,
      List.all_eq_true] at hrun
    obtain ⟨⟨hok, hnot⟩, hzero⟩ := hrun
    rcases hdump : db.dump "out" loaded with ⟨f | ⟨⟩, dumped⟩
    · rw [hdump] at hok
      cases hok
    · refine ⟨db, loaded, dumped, rfl, hdump, by simpa using hnot, ?_⟩
      intro x hx hfinite
      simpa [hfinite] using hzero x hx

theorem readDump_eq_idle : ∃ db loaded dumped, load idleConfig idleFiles = (.ok db, loaded) ∧
    db.dump "out" loaded = (.ok (), dumped) ∧
      readDump "out" dumped = (.error ⟨["deserialize json"], .json .shape⟩, dumped) := by
  obtain ⟨db, loaded, dumped, hload, hdump, hnot, hzero⟩ := exists_load_idle
  refine ⟨db, loaded, dumped, hload, hdump, ?_⟩
  have hexact : ofText real Binary64.zero.jsonText = .ok .zero := by decide +kernel
  refine (readDump_eq idleConfig_fitsWords hload hdump ?_).2 hnot
  intro x hx hfinite
  rw [hzero x hx hfinite, hexact]

end Database

end ClusterBench
