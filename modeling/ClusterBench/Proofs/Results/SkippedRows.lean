import ClusterBench.Proofs.Computations
import ClusterBench.Results.CacheLog

/-!
# Rows before the start

The samples of a cache log are those of the records behind the dropped ones, each read by itself.
What stands in the dropped records is never read, but the first record of a table sets the number
of fields that all others need to have, and it does so even if it is dropped.
-/

namespace ClusterBench

open List (Forall₂)

namespace Table

def width (bytes : Bytes) : Option ℕ := (records bytes).head?.map List.length

/-- The first record sets the number of fields that these records have. -/
def Fits (bytes : Bytes) (rest : List (List Bytes)) : Prop :=
  ∀ record ∈ rest, width bytes = some record.length

theorem row_eq_ok_iff {length : ℕ} {record : List Bytes} {fields : List String} :
    row length record = .ok fields ↔
      length = record.length ∧ row record.length record = .ok fields := by
  constructor
  · intro h
    by_cases hlength : length = record.length
    · rw [hlength] at h
      exact ⟨hlength, h⟩
    · rw [row, if_neg (Ne.symm hlength)] at h
      cases h
  · rintro ⟨rfl, h⟩
    exact h

theorem rows_eq {bytes : Bytes} {first : List Bytes} {rest : List (List Bytes)}
    (h : records bytes = first :: rest) : rows bytes = (records bytes).map (row first.length) := by
  rw [rows, h]

end Table

namespace CacheLog

variable {bytes a b : Table.Bytes} {n : ℕ} {log : CacheLog}

def ofRow (startDiff : ℕ) : Except TableFault (List String) → Except Failure CacheSample
  | .ok fields => sample startDiff fields
  | .error fault => .error (.of (.table fault))

/-- What a record holds, read among records of its own length. -/
def Holds (startDiff : ℕ) (record : List Table.Bytes) (s : CacheSample) : Prop :=
  ofRow startDiff (Table.row record.length record) = .ok s

theorem holds_rightUnique (n : ℕ) : Relator.RightUnique (Holds n) := by
  intro record s s' hs hs'
  exact Except.ok.inj (hs.symm.trans hs')

theorem ofRow_eq_ok_iff {length : ℕ} {record : List Table.Bytes} {s : CacheSample} :
    ofRow n (Table.row length record) = .ok s ↔ length = record.length ∧ Holds n record s := by
  have hrow {result : Except TableFault (List String)} :
      ofRow n result = .ok s ↔ ∃ fields, result = .ok fields ∧ sample n fields = .ok s := by
    cases result <;> simp [ofRow]
  rw [Holds, hrow, hrow]
  constructor
  · rintro ⟨fields, hfields, hs⟩
    obtain ⟨hlength, hfields⟩ := Table.row_eq_ok_iff.mp hfields
    exact ⟨hlength, fields, hfields, hs⟩
  · rintro ⟨hlength, fields, hfields, hs⟩
    exact ⟨fields, Table.row_eq_ok_iff.mpr ⟨hlength, hfields⟩, hs⟩

theorem ofBytes_eq (bytes : Table.Bytes) (n : ℕ) :
    ofBytes bytes n = ((Table.rows bytes).drop n).mapM (ofRow n) := rfl

/-- A log is read exactly if the records behind the dropped ones have the length of the first
record of all, and then it has the sample that each of them holds. -/
theorem ofBytes_eq_ok_iff : ofBytes bytes n = .ok log ↔
    Table.Fits bytes ((Table.records bytes).drop n) ∧
      Forall₂ (Holds n) ((Table.records bytes).drop n) log := by
  rw [Table.Fits, ← List.forall₂_and_left, ofBytes_eq, mapM_eq_ok_iff, ← List.forall₂_eq_eq_eq,
    List.forall₂_map_left_iff, List.forall₂_map_right_iff]
  cases hrecords : Table.records bytes with
  | nil =>
    rw [Table.rows, hrecords, List.drop_nil, List.drop_nil, List.forall₂_nil_left_iff,
      List.forall₂_nil_left_iff]
  | cons first rest =>
    have hwidth : Table.width bytes = some first.length := by rw [Table.width, hrecords]; rfl
    rw [Table.rows_eq hrecords, ← List.map_drop, List.forall₂_map_left_iff, hrecords, hwidth]
    simp only [ofRow_eq_ok_iff, Option.some.injEq]

variable {rest : List (List Table.Bytes)}

/-- Logs with the same records behind the dropped ones, if both are read, have the same samples,
one for each of these records. Both of them are read or neither is, unless these records can be
read and one log begins with a record of their length and the other does not. -/
theorem ofBytes_behind_dropped (ha : (Table.records a).drop n = rest)
    (hb : (Table.records b).drop n = rest) :
    (∀ log, ofBytes a n = .ok log → log.length = rest.length) ∧
      (∀ log log', ofBytes a n = .ok log → ofBytes b n = .ok log' → log = log') ∧
      ((∀ log, ofBytes a n = .ok log ↔ ofBytes b n = .ok log) ↔
        ∀ log, Forall₂ (Holds n) rest log → (Table.Fits a rest ↔ Table.Fits b rest)) := by
  have hread_a (log : CacheLog) :
      ofBytes a n = .ok log ↔ Table.Fits a rest ∧ Forall₂ (Holds n) rest log := by
    rw [ofBytes_eq_ok_iff, ha]
  have hread_b (log : CacheLog) :
      ofBytes b n = .ok log ↔ Table.Fits b rest ∧ Forall₂ (Holds n) rest log := by
    rw [ofBytes_eq_ok_iff, hb]
  refine ⟨fun log h => ?_, fun log log' h h' => ?_, ?_⟩
  · exact ((hread_a log).mp h).2.length_eq.symm
  · exact (holds_rightUnique n).forall₂ ((hread_a log).mp h).2 ((hread_b log').mp h').2
  · simp only [hread_a, hread_b, and_congr_left_iff]

/-- Two files with the same record behind the dropped one, which in the first file is a title. -/
theorem ofBytes_behind_title :
    let titled := Utf8.encode "starting\n20, 5.5, 1, 0, 2\n"
    let plain := Utf8.encode "10.5, 0, 0, 0, 1\n20, 5.5, 1, 0, 2\n"
    (Table.records titled).drop 1 = (Table.records plain).drop 1 ∧
      (∃ log, ofBytes plain 1 = .ok log ∧ log.length = 1) ∧ ∀ log, ofBytes titled 1 ≠ .ok log := by
  intro titled plain
  have hrest : (Table.records titled).drop 1 = (Table.records plain).drop 1 := by decide +kernel
  have hok : (ofBytes plain 1).isOk = true := by decide +kernel
  have hwidth : ¬ Table.Fits titled ((Table.records plain).drop 1) := by
    unfold Table.Fits
    decide +kernel
  obtain ⟨log, hlog⟩ := exists_eq_ok_of_isOk hok
  obtain ⟨-, hsame, hiff⟩ := ofBytes_behind_dropped hrest rfl
  obtain ⟨hlength, -, -⟩ := ofBytes_behind_dropped (Eq.refl ((Table.records plain).drop 1)) rfl
  obtain ⟨hfits, hholds⟩ := ofBytes_eq_ok_iff.mp hlog
  refine ⟨hrest, ⟨log, hlog, hlength log hlog⟩, fun log' hlog' => hwidth ?_⟩
  -- If both were read, they would be read alike, and the title would fit.
  obtain rfl := hsame log' log hlog' hlog
  refine (hiff.mp (fun other => ?_) _ hholds).mpr hfits
  rw [hlog, hlog']

end CacheLog

end ClusterBench
