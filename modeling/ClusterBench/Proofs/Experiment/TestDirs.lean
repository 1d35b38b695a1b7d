import ClusterBench.Experiment.Test
import ClusterBench.Proofs.Computations
import ClusterBench.Proofs.TestId.Text

/-!
# Directories of the tests of a sweep

A test empties its directory before it starts, so tests with the same directory lose results. The
directory tells the parameters of a test except for two: the type and the prefix are joined by a
dash that both may hold, and the inter-arrival time is cut to six digits. These are the only ways in
which two tests of a sweep share a directory.
-/

namespace ClusterBench

/-- A list of blocks has no duplicates if each block has none and tells what it was made from. -/
theorem nodup_flatMap_of_key {α β κ : Type} {as : List α} {f : α → List β} (k : α → κ) (g : β → κ)
    (has : (as.map k).Nodup) (hf : ∀ a ∈ as, (f a).Nodup) (hg : ∀ a ∈ as, ∀ b ∈ f a, g b = k a) :
    (as.flatMap f).Nodup := by
  rw [List.nodup_flatMap]
  refine ⟨hf, ?_⟩
  have hpairs : as.Pairwise fun a b => k a ≠ k b := List.pairwise_map.mp has
  apply hpairs.imp_of_mem
  intro a b ha hb hne c hca hcb
  exact hne ((hg a ha c hca).symm.trans (hg b hb c hcb))

namespace SweepConfig

structure Distinct (sweep : SweepConfig) : Prop where
  testTypes : sweep.testTypes.Nodup
  testPrefixes : sweep.testPrefixes.Nodup
  loads : (sweep.loads.map fun load => (load.batchSize, load.writeRatio)).Nodup
  iats : ∀ load ∈ sweep.loads, load.iats.Nodup
  recordSizes : sweep.recordSizes.Nodup
  filesPerClient : sweep.filesPerClient.Nodup
  testRuns : sweep.testRuns.Nodup

variable {sweep : SweepConfig} {total : ℕ}

theorem mem_points {p : TestPoint} : p ∈ sweep.points total ↔
    p.testType ∈ sweep.testTypes ∧ p.testPrefix ∈ sweep.testPrefixes ∧
      (∃ load ∈ sweep.loads, p.batchSize = load.batchSize ∧ p.writeRatio = load.writeRatio ∧
        p.iat ∈ load.iats) ∧
      p.recordSize ∈ sweep.recordSizes ∧ p.filesPerClient ∈ sweep.filesPerClient ∧
      p.testRun ∈ sweep.testRuns ∧ p.clientsPerMachine = sweep.clientsPerMachine ∧
      p.totalClients = total ∧ p.testDuration = sweep.testDuration ∧ p.warmup = sweep.warmup := by
  simp only [points, List.mem_flatMap, List.mem_map]
  constructor
  · rintro ⟨t, ht, load, hl, f, hf, q, hq, r, hr, i, hi, n, hn, rfl⟩
    exact ⟨ht, hq, ⟨load, hl, rfl, rfl, hi⟩, hr, hf, hn, rfl, rfl, rfl, rfl⟩
  · obtain ⟨t, q, b, w, f, r, i, n, c, m, d, u⟩ := p
    rintro ⟨ht, hq, ⟨load, hl, hb, hw, hi⟩, hr, hf, hn, hc, hm, hd, hu⟩
    dsimp only at *
    subst hb hw hc hm hd hu
    exact ⟨t, ht, load, hl, f, hf, q, hq, r, hr, i, hi, n, hn, rfl⟩

theorem Distinct.nodup_points (h : sweep.Distinct) : (sweep.points total).Nodup := by
  have single : ∀ {α : Type} {as : List α}, as.Nodup → (as.map id).Nodup := by simp
  unfold points
  refine nodup_flatMap_of_key id TestPoint.testType (single h.testTypes) ?_ (by grind)
  intro testType _
  refine nodup_flatMap_of_key _ (fun p => (p.batchSize, p.writeRatio)) h.loads ?_ (by grind)
  intro load hload
  refine nodup_flatMap_of_key id TestPoint.filesPerClient (single h.filesPerClient) ?_ (by grind)
  intro filesPerClient _
  refine nodup_flatMap_of_key id TestPoint.testPrefix (single h.testPrefixes) ?_ (by grind)
  intro testPrefix _
  refine nodup_flatMap_of_key id TestPoint.recordSize (single h.recordSizes) ?_ (by grind)
  intro recordSize _
  refine nodup_flatMap_of_key id TestPoint.iat (single (h.iats load hload)) ?_ (by grind)
  intro iat _
  apply h.testRuns.map
  intro m n heq
  exact congrArg TestPoint.testRun heq

end SweepConfig

namespace ExperimentConfig

variable {config : ExperimentConfig}

/-- The sweep is run with the number of all clients, if a machine word holds it. -/
theorem tests_cases (config : ExperimentConfig) :
    (config.clientCount < 2 ^ wordBits ∧ config.tests = .ok config.points ∧
        config.points = config.sweep.points config.clientCount) ∨
      (2 ^ wordBits ≤ config.clientCount ∧ config.tests = .error .broken ∧
        config.points = []) := by
  unfold points tests totalClients
  rcases lt_or_ge config.clientCount (2 ^ wordBits) with h | h
  · rw [inWord_eq_ok.mpr ⟨h, rfl⟩]
    exact Or.inl ⟨h, rfl, rfl⟩
  · rw [inWord_eq_error.mpr ⟨h, rfl⟩]
    exact Or.inr ⟨h, rfl, rfl⟩

theorem mem_points {p : TestPoint} : p ∈ config.points ↔
    config.clientCount < 2 ^ wordBits ∧ p ∈ config.sweep.points config.clientCount := by
  rcases config.tests_cases with ⟨hfits, -, heq⟩ | ⟨hlarge, -, hnone⟩
  · rw [heq, and_iff_right hfits]
  · rw [hnone]
    exact iff_of_false List.not_mem_nil fun h => absurd h.1 (not_lt.mpr hlarge)

end ExperimentConfig

namespace TestPoint

attribute [ext] TestPoint

/-- The type and the prefix of a test as its id shows them. -/
def gluedPrefix (testType testPrefix : String) : String := s!"{testType}-{testPrefix}"

theorem append_digits_inj {as bs : List Char} {m n : ℕ} {c : Char} (hc : c.isDigit = false)
    (h : as ++ c :: Nat.toDigits 10 m = bs ++ c :: Nat.toDigits 10 n) : as = bs ∧ m = n := by
  obtain ⟨hfront, hdigits⟩ := eq_of_append_cons_eq ((allDigits_toDigits m).notMem hc)
    ((allDigits_toDigits n).notMem hc) h
  exact ⟨hfront, toDigits_injective hdigits⟩

def runPath (dir name : String) (run : ℕ) : String := s!"{dir}/{name}/run_{run}"

theorem runPath_eq_iff {dir a b : String} {m n : ℕ} :
    runPath dir a m = runPath dir b n ↔ a = b ∧ m = n := by
  have htoList (a : String) (n : ℕ) : (runPath dir a n).toList =
      (dir.toList ++ ('/' :: a.toList ++ "/run".toList)) ++ '_' :: Nat.toDigits 10 n := by
    simp [runPath]
  constructor
  · intro h
    have hlist := congrArg String.toList h
    rw [htoList, htoList] at hlist
    obtain ⟨hname, hrun⟩ := append_digits_inj rfl hlist
    have hname := List.append_cancel_right (List.append_cancel_left hname)
    exact ⟨String.toList_inj.mp (List.cons.inj hname).2, hrun⟩
  · rintro ⟨rfl, rfl⟩
    rfl

theorem testDir_eq_runPath (p : TestPoint) (expDir : String) :
    p.testDir expDir = runPath expDir p.testId.text p.testRun := rfl

/-- A directory tells the id and the run of its test. -/
theorem testDir_eq_iff {p q : TestPoint} (expDir : String) :
    p.testDir expDir = q.testDir expDir ↔
      p.testId.text = q.testId.text ∧ p.testRun = q.testRun := runPath_eq_iff

theorem wipeCommand_injective : Function.Injective Experiment.wipeCommand := by
  intro a b h
  have hlist := congrArg String.toList h
  simp only [Experiment.wipeCommand, String.toList_append, toString_string] at hlist
  exact String.toList_inj.mp (List.append_cancel_left (List.append_cancel_right hlist))

end TestPoint

namespace SweepConfig

variable {sweep : SweepConfig} {total : ℕ}

/-- Two tests of a sweep share a directory exactly if they agree in what their ids show. -/
theorem testDir_eq_iff_of_mem {p q : TestPoint} (hp : p ∈ sweep.points total)
    (hq : q ∈ sweep.points total) (expDir : String) : p.testDir expDir = q.testDir expDir ↔
      TestPoint.gluedPrefix p.testType p.testPrefix =
          TestPoint.gluedPrefix q.testType q.testPrefix ∧
        p.batchSize = q.batchSize ∧ p.writeRatio = q.writeRatio ∧ p.recordSize = q.recordSize ∧
        p.filesPerClient = q.filesPerClient ∧ p.testRun = q.testRun ∧
        p.iat.general = q.iat.general := by
  have hsame : p.totalClients = q.totalClients :=
    (mem_points.mp hp).2.2.2.2.2.2.2.1.trans (mem_points.mp hq).2.2.2.2.2.2.2.1.symm
  rw [TestPoint.testDir_eq_iff, TestId.text_eq_iff]
  simp only [TestPoint.testId, TestPoint.gluedPrefix, TestId.iatText, reduceCtorEq, hsame,
    true_and, false_implies]
  tauto

/-- Each combination of glued texts comes from one type and one prefix. -/
def GluesApart (sweep : SweepConfig) : Prop :=
  ((sweep.testTypes ×ˢ sweep.testPrefixes).map fun (testType, testPrefix) =>
    TestPoint.gluedPrefix testType testPrefix).Nodup

def TimesApart (sweep : SweepConfig) : Prop :=
  ∀ load ∈ sweep.loads, (load.iats.map Binary64.general).Nodup

theorem Distinct.eq_of_testDir_eq (h : sweep.Distinct) (hglue : sweep.GluesApart)
    (htimes : sweep.TimesApart) {expDir : String} {p q : TestPoint}
    (hp : p ∈ sweep.points total) (hq : q ∈ sweep.points total)
    (heq : p.testDir expDir = q.testDir expDir) : p = q := by
  obtain ⟨hglued, hbatch, hwrite, hrecord, hfiles, hrun, hiat⟩ :=
    (testDir_eq_iff_of_mem hp hq expDir).mp heq
  obtain ⟨htype, hpre, ⟨load, hload, hb, hw, hi⟩, -, -, -, hmachine, htotal, hduration, hwarmup⟩ :=
    mem_points.mp hp
  obtain ⟨htype', hpre', ⟨load', hload', hb', hw', hi'⟩, -, -, -, hmachine', htotal', hduration',
    hwarmup'⟩ := mem_points.mp hq
  have hnames := List.inj_on_of_nodup_map hglue (List.mem_product.mpr ⟨htype, hpre⟩)
    (List.mem_product.mpr ⟨htype', hpre'⟩) hglued
  obtain ⟨htypes, hprefixes⟩ := Prod.mk.inj hnames
  have hloads : load = load' := by
    apply List.inj_on_of_nodup_map h.loads hload hload'
    rw [← hb, ← hw, ← hb', ← hw', hbatch, hwrite]
  subst hloads
  have hiats := List.inj_on_of_nodup_map (htimes load hload) hi hi' hiat
  exact TestPoint.ext htypes hprefixes hbatch hwrite hfiles hrecord hiats hrun
    (hmachine.trans hmachine'.symm) (htotal.trans htotal'.symm)
    (hduration.trans hduration'.symm) (hwarmup.trans hwarmup'.symm)

theorem Distinct.apart_of_nodup (h : sweep.Distinct) {expDir : String}
    (hdirs : ((sweep.points total).map fun p => p.testDir expDir).Nodup)
    (hne : sweep.points total ≠ []) : sweep.GluesApart ∧ sweep.TimesApart := by
  obtain ⟨p, hp⟩ := List.exists_mem_of_ne_nil _ hne
  have hinj := List.inj_on_of_nodup_map hdirs
  obtain ⟨htype, hpre, hload, hrest⟩ := mem_points.mp hp
  constructor
  · apply (h.testTypes.product h.testPrefixes).map_on
    rintro ⟨t, q⟩ htq ⟨t', q'⟩ htq' heq
    rw [List.mem_product] at htq htq'
    have hmem : ∀ t ∈ sweep.testTypes, ∀ q ∈ sweep.testPrefixes,
        { p with testType := t, testPrefix := q } ∈ sweep.points total :=
      fun t ht q hq => mem_points.mpr ⟨ht, hq, hload, hrest⟩
    have hsame := hinj (hmem t htq.1 q htq.2) (hmem t' htq'.1 q' htq'.2)
      ((testDir_eq_iff_of_mem (hmem t htq.1 q htq.2) (hmem t' htq'.1 q' htq'.2) expDir).mpr
        ⟨heq, rfl, rfl, rfl, rfl, rfl, rfl⟩)
    simpa using hsame
  · intro load hload
    apply (h.iats load hload).map_on
    intro iat hiat iat' hiat' heq
    have hmem : ∀ iat ∈ load.iats, { p with
        batchSize := load.batchSize, writeRatio := load.writeRatio, iat } ∈ sweep.points total :=
      fun iat hiat => mem_points.mpr ⟨htype, hpre, ⟨load, hload, rfl, rfl, hiat⟩, hrest⟩
    have hsame := hinj (hmem iat hiat) (hmem iat' hiat')
      ((testDir_eq_iff_of_mem (hmem iat hiat) (hmem iat' hiat') expDir).mpr
        ⟨rfl, rfl, rfl, rfl, rfl, rfl, heq⟩)
    simpa using hsame

/-- With no parameter listed twice, every test has its own directory, and empties no other one,
exactly if types and prefixes are not glued to the same text and the inter-arrival times of a load
differ within six digits. -/
theorem testDirs_nodup_iff (sweep : SweepConfig) (total : ℕ) (expDir : String)
    (h : sweep.Distinct) :
    (((sweep.points total).map fun p => p.testDir expDir).Nodup ∧
      ((sweep.points total).map fun p => Experiment.wipeCommand (p.testDir expDir)).Nodup) ↔
    sweep.points total = [] ∨ sweep.GluesApart ∧ sweep.TimesApart := by
  have hwipes : ((sweep.points total).map fun p =>
      Experiment.wipeCommand (p.testDir expDir)).Nodup ↔
        ((sweep.points total).map fun p => p.testDir expDir).Nodup := by
    rw [← List.nodup_map_iff TestPoint.wipeCommand_injective
      (l := (sweep.points total).map fun p => p.testDir expDir), List.map_map]
    rfl
  rw [hwipes, and_self]
  constructor
  · intro hdirs
    by_cases hne : sweep.points total = []
    · exact Or.inl hne
    · exact Or.inr (h.apart_of_nodup hdirs hne)
  · rintro (hempty | ⟨hglue, htimes⟩)
    · rw [hempty]
      exact List.nodup_nil
    · apply h.nodup_points.map_on
      intro p hp q hq heq
      exact h.eq_of_testDir_eq hglue htimes hp hq heq

theorem testDirs_nodup_two_prefixes :
    let sweep : SweepConfig := { testPrefixes := ["kw48", "kw-48"] }
    sweep.Distinct ∧ ((sweep.points 4).map fun p => p.testDir "exp").Nodup ∧
      ((sweep.points 4).map fun p => Experiment.wipeCommand (p.testDir "exp")).Nodup := by
  intro sweep
  have hdistinct : sweep.Distinct := by constructor <;> simp [sweep]
  have hglue : sweep.GluesApart := by
    unfold GluesApart
    decide
  have htimes : sweep.TimesApart := by simp [TimesApart, sweep]
  exact ⟨hdistinct, (testDirs_nodup_iff sweep 4 "exp" hdistinct).mpr (Or.inr ⟨hglue, htimes⟩)⟩

def gluedSweep : SweepConfig where
  testTypes := ["rw", "rw-a"]
  testPrefixes := ["a-b", "b"]

theorem gluedSweep_shares_dir : gluedSweep.Distinct ∧
    ¬ ((gluedSweep.points 4).map fun p => p.testDir "exp").Nodup := by
  have hdistinct : gluedSweep.Distinct := by constructor <;> simp [gluedSweep]
  refine ⟨hdistinct, fun hdirs => ?_⟩
  have hne : gluedSweep.points 4 ≠ [] := List.cons_ne_nil _ _
  have hglue : ¬ gluedSweep.GluesApart := by
    unfold GluesApart
    decide
  exact hglue (hdistinct.apart_of_nodup hdirs hne).1

end SweepConfig

end ClusterBench
