import ClusterBench.Proofs.TestId.Grammar

/-!
# Reading test ids

The text of an id is read as the id again, up to what the text does not hold: the clients of a
machine when the system does not show them, and further digits of the inter-arrival time. The text
of what is read is the same text.
-/

namespace ClusterBench

theorem spellsNatural_toDigits {bits n : ℕ} (h : n < 2 ^ bits) :
    SpellsNatural bits (Nat.toDigits 10 n) n :=
  ⟨_, .inl rfl, Nat.toDigits_ne_nil, allDigits_toDigits n, digitsValue_toDigits n, h⟩

namespace Binary64

def special (x : Binary64) : Binary64 := if x.isNaN then nan else infinity x.negative

theorem isFinite_special (x : Binary64) : x.special.isFinite = false := by
  unfold special
  cases x.isNaN <;> rfl

theorem readChars?_specialText (x : Binary64) :
    readChars? x.specialText.toList = some x.special ∧
      readChars? x.specialText.toLower.toList = some x.special := by
  unfold specialText signText String.toLower special
  rw [String.toList_map]
  cases x.isNaN <;> cases x.negative <;> decide

theorem specialText_special (x : Binary64) : x.special.specialText = x.specialText := by
  unfold special specialText signText
  cases x.isNaN <;> cases x.negative <;> rfl

/-- Two decimals are always read, and written again as they were. -/
theorem fixed_two_reread (x : Binary64) :
    ∃ y, readChars? (x.fixed 2).toList = some y ∧ y.fixed 2 = x.fixed 2 := by
  by_cases hx : x.isFinite
  · exact fixed_two_readBack hx
  · rw [Bool.not_eq_true] at hx
    refine ⟨x.special, ?_, ?_⟩
    · rw [fixed_of_not_isFinite hx]
      exact (readChars?_specialText x).1
    · rw [fixed_of_not_isFinite hx, fixed_of_not_isFinite x.isFinite_special, specialText_special]

/-- Six significant digits are always read, and written again as they were unless the number has
lost bits because it is too small. -/
theorem general_reread (x : Binary64) :
    ∃ y, readChars? x.general.toList = some y ∧
      (x.isNaN ∨ x.isInfinite ∨ x.isZero ∨ x.IsNormal → y.general = x.general) := by
  by_cases hx : x.isFinite
  · by_cases hzero : x.isZero
    · refine ⟨zero, ?_, fun _ => ?_⟩
      · rw [general, if_pos hzero]
        decide
      · rw [general, general, if_pos hzero]
        rfl
    rw [Bool.not_eq_true] at hzero
    by_cases hnormal : x.IsNormal
    · obtain ⟨y, hread, hy⟩ := general_readBack hnormal
      exact ⟨y, hread, fun _ => hy⟩
    · obtain ⟨hlow, hhigh, -⟩ := significant_spec 5 (isZero_eq_false_iff.mp hzero)
      obtain ⟨digits, zeros, -, hread⟩ :=
        readChars?_generalText x.negative (toList_signText x) (digitCount_eq hlow hhigh)
      rw [general_eq_generalText hx hzero]
      refine ⟨_, hread, ?_⟩
      have hexp : x.exponent.val ≠ 2047 := by simpa [isFinite] using hx
      rintro (hnan | hinfinite | hz | hn)
      · exact absurd hnan (by simp [isNaN, hexp])
      · exact absurd hinfinite (by simp [isInfinite, hexp])
      · exact absurd hz (by simp [hzero])
      · exact absurd hn hnormal
  · rw [Bool.not_eq_true] at hx
    refine ⟨x.special, ?_, fun _ => ?_⟩
    · rw [general_of_not_isFinite hx]
      exact (readChars?_specialText x).2
    · rw [general_of_not_isFinite hx, general_of_not_isFinite x.isFinite_special,
        specialText_special]

end Binary64

namespace TestId

structure FitsWords (id : TestId) : Prop where
  numClients : id.numClients < 2 ^ wordBits
  clientsPerMachine : id.clientsPerMachine < 2 ^ wordBits
  batchSize : id.batchSize < 2 ^ wordBits
  recordSize : id.recordSize < 2 ^ wordBits
  filesPerClient : id.filesPerClient < 2 ^ wordBits
  writeRatio : id.writeRatio < 2 ^ wordBits

/-- The clients of a machine as far as the text shows them. -/
def shownPerMachine (id : TestId) : ℕ :=
  match id.system with
  | .kawkab => 0
  | .btrdb => id.clientsPerMachine

def spelling (id : TestId) : Spelling where
  start := id.prefixText.toList
  numClients := Nat.toDigits 10 id.numClients
  clientsPerMachine := match id.system with
    | .kawkab => none
    | .btrdb => some (Nat.toDigits 10 id.clientsPerMachine)
  batchSize := Nat.toDigits 10 id.batchSize
  recordSize := Nat.toDigits 10 id.recordSize
  filesPerClient := Nat.toDigits 10 id.filesPerClient
  writeRatio := Nat.toDigits 10 id.writeRatio
  iat := id.iatText.toList

theorem chars_spelling (id : TestId) : id.spelling.chars = id.text.toList := by
  rw [Spelling.chars_eq, toList_text]
  unfold Spelling.fields Spelling.machineParts spelling fields perMachineFields
  cases id.system <;> rfl

theorem spells_spelling {id : TestId} (h : id.FitsWords) {iat : Binary64}
    (hiat : Binary64.readChars? id.iatText.toList = some iat) :
    id.spelling.Spells { id with clientsPerMachine := id.shownPerMachine, iat } where
  start := rfl
  numClients := spellsNatural_toDigits h.numClients
  clientsPerMachine := by
    unfold spelling shownPerMachine
    cases id.system with
    | kawkab => exact ⟨rfl, rfl⟩
    | btrdb => exact ⟨rfl, spellsNatural_toDigits h.clientsPerMachine⟩
  batchSize := spellsNatural_toDigits h.batchSize
  recordSize := spellsNatural_toDigits h.recordSize
  filesPerClient := spellsNatural_toDigits h.filesPerClient
  writeRatio := spellsNatural_toDigits h.writeRatio
  iat := hiat

theorem read_text_of_iat {id : TestId} (h : id.FitsWords) {iat : Binary64}
    (hiat : Binary64.readChars? id.iatText.toList = some iat) :
    TestId.read id.text = .ok { id with clientsPerMachine := id.shownPerMachine, iat } :=
  read_of_spells (spells_spelling h hiat) (chars_spelling id)

theorem iatText_reread (id : TestId) :
    ∃ iat, Binary64.readChars? id.iatText.toList = some iat ∧
      (id.system = .btrdb ∨ id.iat.isNaN ∨ id.iat.isInfinite ∨ id.iat.isZero ∨ id.iat.IsNormal →
        ({ id with iat } : TestId).iatText = id.iatText) := by
  unfold iatText
  cases id.system with
  | kawkab =>
    obtain ⟨iat, hread, hagain⟩ := id.iat.general_reread
    refine ⟨iat, hread, ?_⟩
    rintro (hsystem | hclass)
    · exact absurd hsystem (by decide)
    · exact hagain hclass
  | btrdb =>
    obtain ⟨iat, hread, hagain⟩ := id.iat.fixed_two_reread
    exact ⟨iat, hread, fun _ => hagain⟩

/-- Reading the text of an id gives the id again as far as the text shows it, and the same text. For
one system this holds whatever the inter-arrival time is, for the other one unless the time has lost
bits because it is too small. -/
theorem read_text (id : TestId) (h : id.FitsWords) :
    ∃ parsed, TestId.read id.text = .ok parsed ∧
      parsed = { id with clientsPerMachine := id.shownPerMachine, iat := parsed.iat } ∧
      (id.system = .btrdb ∨ id.iat.isNaN ∨ id.iat.isInfinite ∨ id.iat.isZero ∨ id.iat.IsNormal →
        parsed.text = id.text) := by
  obtain ⟨iat, hread, hagain⟩ := iatText_reread id
  refine ⟨_, read_text_of_iat h hread, rfl, fun hclass => ?_⟩
  refine text_eq_iff.mpr ⟨rfl, rfl, rfl, fun hsystem => ?_, rfl, rfl, rfl, rfl, hagain hclass⟩
  dsimp only at hsystem ⊢
  rw [shownPerMachine, hsystem]

/-- A prefix may look like the fields of another id. -/
theorem read_text_tagged_prefix :
    let id : TestId := ⟨.kawkab, "rw-nc3-cpm2-iat1", 48, 2, 1, 16, 1, 50, ⟨false, 1023, 0⟩⟩
    id.FitsWords ∧ id.iat.IsNormal ∧
      ∃ parsed, TestId.read id.text = .ok parsed ∧
        parsed = { id with clientsPerMachine := 0, iat := parsed.iat } ∧ parsed.text = id.text := by
  intro id
  have hfits : id.FitsWords := by constructor <;> decide +kernel
  have hnormal : id.iat.IsNormal := ⟨by decide, by decide +kernel⟩
  obtain ⟨parsed, hread, hparsed, htext⟩ := read_text id hfits
  exact ⟨hfits, hnormal, parsed, hread, hparsed,
    htext (Or.inr (Or.inr (Or.inr (Or.inr hnormal))))⟩

end TestId

end ClusterBench
