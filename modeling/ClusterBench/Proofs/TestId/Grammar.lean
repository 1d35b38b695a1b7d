import ClusterBench.Proofs.Computations
import ClusterBench.Proofs.TestId.Text

/-!
# The grammar of test ids

A text is a test id if it can be cut into a prefix, tagged numbers in their order and an
inter-arrival time. Reading cuts it from its end and the grammar from its front, with a prefix that
may hold anything; still they agree on what is an id, and no text can be cut in two ways.
-/

namespace ClusterBench

def SpellsNatural (bits : ℕ) (cs : List Char) (n : ℕ) : Prop :=
  ∃ digits, (cs = digits ∨ cs = '+' :: digits) ∧ digits ≠ [] ∧ AllDigits digits ∧
    digitsValue digits = n ∧ n < 2 ^ bits

theorem readNatural?_digits {bits n : ℕ} {digits : List Char} :
    (if !digits.isEmpty && digits.all Char.isDigit && digitsValue digits < 2 ^ bits then
      some (digitsValue digits) else none) = some n ↔
    digits ≠ [] ∧ AllDigits digits ∧ digitsValue digits = n ∧ n < 2 ^ bits := by
  have hall : digits.all Char.isDigit = true ↔ AllDigits digits := List.all_eq_true
  rw [Option.ite_none_right_eq_some]
  simp only [Bool.and_eq_true, Bool.not_eq_true', List.isEmpty_eq_false_iff, hall,
    decide_eq_true_eq, Option.some.injEq]
  constructor
  · rintro ⟨⟨⟨hne, hdigits⟩, hlt⟩, rfl⟩
    exact ⟨hne, hdigits, rfl, hlt⟩
  · rintro ⟨hne, hdigits, rfl, hlt⟩
    exact ⟨⟨⟨hne, hdigits⟩, hlt⟩, rfl⟩

theorem readNatural?_eq_some_iff {bits n : ℕ} {cs : List Char} :
    readNatural? bits cs = some n ↔ SpellsNatural bits cs n := by
  have hplus {digits : List Char} (h : AllDigits ('+' :: digits)) : False :=
    h.notMem rfl List.mem_cons_self
  unfold readNatural? SpellsNatural
  split
  next digits =>
    rw [readNatural?_digits]
    constructor
    · exact fun h => ⟨digits, .inr rfl, h⟩
    · rintro ⟨_, rfl | heq, h⟩
      · exact (hplus h.2.1).elim
      · cases heq
        exact h
  next hsign =>
    rw [readNatural?_digits]
    constructor
    · exact fun h => ⟨cs, .inl rfl, h⟩
    · rintro ⟨digits, rfl | heq, h⟩
      · exact h
      · exact absurd heq (hsign digits)

theorem SpellsNatural.dash_notMem {bits n : ℕ} {cs : List Char} (h : SpellsNatural bits cs n) :
    '-' ∉ cs := by
  obtain ⟨digits, heq, -, hdigits, -⟩ := h
  have hnot : '-' ∉ digits := hdigits.notMem rfl
  rcases heq with rfl | rfl
  · exact hnot
  · simpa using hnot

theorem notMem_of_splitSign {cs : List Char} {c : Char} (hc : c ≠ '-' ∧ c ≠ '+')
    (h : c ∉ (splitSign cs).2) : c ∉ cs := by
  unfold splitSign at h
  split at h <;> simp_all

theorem notMem_of_splitDigits {cs : List Char} {c : Char} (hc : c.isDigit = false)
    (h : c ∉ (splitDigits cs).2) : c ∉ cs := by
  intro hmem
  rw [← List.takeWhile_append_dropWhile (p := Char.isDigit) (l := cs)] at hmem
  rcases List.mem_append.mp hmem with hdigit | hrest
  · rw [List.mem_takeWhile_imp hdigit] at hc
    cases hc
  · exact h hrest

theorem notMem_of_readDecimals {cs : List Char} {c : Char} (hc : c.isDigit = false)
    (hpoint : c ≠ '.') (h : c ∉ (Numeral.readDecimals cs).2) : c ∉ cs := by
  unfold Numeral.readDecimals at h
  split at h
  · have hrest := notMem_of_splitDigits hc h
    simp [hpoint, hrest]
  · exact h

theorem notMem_of_readExponent {cs : List Char} {exponent : ℤ} {c : Char}
    (hc : c.isDigit = false) (hmark : c ∉ "eE+-".toList)
    (h : Numeral.readExponent cs = some exponent) : c ∉ cs := by
  have hmarks : c ≠ 'e' ∧ c ≠ 'E' ∧ c ≠ '+' ∧ c ≠ '-' := by simpa using hmark
  unfold Numeral.readExponent at h
  split at h
  · exact List.not_mem_nil
  next e cs =>
    split_ifs at h with he
    have hrest : (splitDigits (splitSign cs).2).2 = [] := by simp_all
    have htail : c ∉ cs := by
      apply notMem_of_splitSign ⟨hmarks.2.2.2, hmarks.2.2.1⟩
      apply notMem_of_splitDigits hc
      rw [hrest]
      exact List.not_mem_nil
    have hne : c ≠ e := by
      rintro rfl
      exact he.elim hmarks.1 hmarks.2.1
    simp [hne, htail]

/-- A numeral is made of digits and a few other characters. -/
theorem notMem_of_readNumeral {cs : List Char} {n : Numeral} {c : Char} (hc : c.isDigit = false)
    (hmark : c ∉ ".eE+-".toList) (h : Numeral.read? cs = some n) : c ∉ cs := by
  unfold Numeral.read? at h
  dsimp only at h
  split_ifs at h
  obtain ⟨exponent, hexponent, -⟩ := Option.map_eq_some_iff.mp h
  have hpoint : c ≠ '.' := by
    rintro rfl
    exact hmark (by decide)
  apply notMem_of_splitDigits hc
  apply notMem_of_readDecimals hc hpoint
  exact notMem_of_readExponent hc (fun hmem => hmark (List.mem_cons_of_mem '.' hmem)) hexponent

theorem notMem_of_readName {negative : Bool} {cs : List Char} {x : Binary64}
    (h : Binary64.readName? negative cs = some x) : 'a' ∉ cs ∨ 't' ∉ cs := by
  have hlower {c : Char} {name : String} (hname : String.ofList (cs.map Char.toLower) = name)
      (hc : c.toLower = c) (hnot : c ∉ name.toList) : c ∉ cs := by
    intro hmem
    rw [← hname, String.toList_ofList] at hnot
    exact hnot (hc ▸ List.mem_map_of_mem hmem)
  unfold Binary64.readName? at h
  dsimp only at h
  split_ifs at h with hnan hinf
  · exact .inr (hlower hnan (by decide) (by decide))
  · rcases hinf with hinf | hinf
    · exact .inl (hlower hinf (by decide) (by decide))
    · exact .inl (hlower hinf (by decide) (by decide))

/-- No text of a double holds the mark of an inter-arrival time. -/
theorem splitLast?_iat_of_readChars? {cs : List Char} {x : Binary64}
    (h : Binary64.readChars? cs = some x) : splitLast? "-iat".toList cs = none := by
  unfold Binary64.readChars? at h
  dsimp only at h
  have hnot : 'a' ∉ (splitSign cs).2 ∨ 't' ∉ (splitSign cs).2 := by
    split at h
    next hnumeral => exact .inl (notMem_of_readNumeral rfl (by decide) hnumeral)
    next => exact notMem_of_readName h
  rcases hnot with hnot | hnot
  · exact splitLast?_eq_none (by decide) (notMem_of_splitSign (by decide) hnot)
  · exact splitLast?_eq_none (by decide) (notMem_of_splitSign (by decide) hnot)

namespace TestId

theorem takeField_eq_ok_iff {id tag : String} {n : ℕ} {parts rest : List (List Char)} :
    takeField id tag parts = .ok (n, rest) ↔
      ∃ cs, parts = (tag.toList ++ cs) :: rest ∧ SpellsNatural wordBits cs n := by
  cases parts with
  | nil => simp [takeField]
  | cons part parts =>
    rw [takeField]
    constructor
    · intro h
      split_ifs at h with hstart
      split at h
      next m hread =>
        cases h
        rw [List.isPrefixOf_iff_prefix] at hstart
        obtain ⟨cs, rfl⟩ := hstart
        rw [← String.length_toList, List.drop_left] at hread
        exact ⟨cs, rfl, readNatural?_eq_some_iff.mp hread⟩
      next => cases h
    · rintro ⟨cs, heq, hcs⟩
      cases heq
      have hstart : tag.toList.isPrefixOf (tag.toList ++ cs) :=
        List.isPrefixOf_iff_prefix.mpr (List.prefix_append _ _)
      rw [if_pos hstart, ← String.length_toList, List.drop_left,
        readNatural?_eq_some_iff.mpr hcs]

/-- The pieces of a text that may be an id: what stands behind the tags, and what stands in front
of all of them. -/
structure Spelling where
  start : List Char
  numClients : List Char
  clientsPerMachine : Option (List Char)
  batchSize : List Char
  recordSize : List Char
  filesPerClient : List Char
  writeRatio : List Char
  iat : List Char

namespace Spelling

def machineChars (s : Spelling) : List Char :=
  match s.clientsPerMachine with
  | some cs => "-cpm".toList ++ cs
  | none => []

def front (s : Spelling) : List Char :=
  s.start ++ "-nc".toList ++ s.numClients ++ s.machineChars

def chars (s : Spelling) : List Char :=
  s.front ++ "-bs".toList ++ s.batchSize ++ "-rs".toList ++ s.recordSize ++
    "-nf".toList ++ s.filesPerClient ++ "-wr".toList ++ s.writeRatio ++ "-iat".toList ++ s.iat

/-- The pieces are texts of the fields of an id: numbers and a double. The clients of a machine are
spelled exactly for the system whose ids show them, and are zero otherwise. -/
structure Spells (s : Spelling) (id : TestId) : Prop where
  start : s.start = id.prefixText.toList
  numClients : SpellsNatural wordBits s.numClients id.numClients
  clientsPerMachine : match s.clientsPerMachine with
    | some cs => id.system = .btrdb ∧ SpellsNatural wordBits cs id.clientsPerMachine
    | none => id.system = .kawkab ∧ id.clientsPerMachine = 0
  batchSize : SpellsNatural wordBits s.batchSize id.batchSize
  recordSize : SpellsNatural wordBits s.recordSize id.recordSize
  filesPerClient : SpellsNatural wordBits s.filesPerClient id.filesPerClient
  writeRatio : SpellsNatural wordBits s.writeRatio id.writeRatio
  iat : Binary64.readChars? s.iat = some id.iat

def machineParts (s : Spelling) : List (List Char) :=
  match s.clientsPerMachine with
  | some cs => ["cpm".toList ++ cs]
  | none => []

def fields (s : Spelling) : List (List Char) :=
  ("nc".toList ++ s.numClients) :: (s.machineParts ++
    ["bs".toList ++ s.batchSize, "rs".toList ++ s.recordSize, "nf".toList ++ s.filesPerClient,
      "wr".toList ++ s.writeRatio])

def parts (s : Spelling) : List (List Char) :=
  s.fields.reverse ++ (s.start.splitOn '-').reverse

theorem chars_eq (s : Spelling) :
    s.chars = s.start ++ s.fields.flatMap (List.cons '-') ++ ("-iat".toList ++ s.iat) := by
  unfold chars front fields machineChars machineParts
  cases s.clientsPerMachine <;> simp

theorem parts_eq (s : Spelling) : s.parts =
    ("wr".toList ++ s.writeRatio) :: ("nf".toList ++ s.filesPerClient) ::
      ("rs".toList ++ s.recordSize) :: ("bs".toList ++ s.batchSize) ::
      (s.machineParts ++ ("nc".toList ++ s.numClients) :: (s.start.splitOn '-').reverse) := by
  unfold parts fields machineParts
  cases s.clientsPerMachine <;> simp

variable {s t : Spelling} {id : TestId}

theorem Spells.dash_notMem (h : s.Spells id) : ∀ field ∈ s.fields, '-' ∉ field := by
  have htagged {tag cs : List Char} {n : ℕ} (htag : '-' ∉ tag)
      (hcs : SpellsNatural wordBits cs n) : '-' ∉ tag ++ cs := by
    simp [htag, hcs.dash_notMem]
  have hmachine : ∀ field ∈ s.machineParts, '-' ∉ field := by
    have hspelled := h.clientsPerMachine
    unfold machineParts
    cases hcs : s.clientsPerMachine with
    | none => simp
    | some cs =>
      rw [hcs] at hspelled
      exact List.forall_mem_singleton.mpr (htagged (by decide) hspelled.2)
  intro field hfield
  simp only [fields, List.mem_cons, List.mem_append, List.not_mem_nil, or_false] at hfield
  rcases hfield with rfl | hmem | rfl | rfl | rfl | rfl
  · exact htagged (by decide) h.numClients
  · exact hmachine field hmem
  · exact htagged (by decide) h.batchSize
  · exact htagged (by decide) h.recordSize
  · exact htagged (by decide) h.filesPerClient
  · exact htagged (by decide) h.writeRatio

theorem Spells.splitLast?_chars (h : s.Spells id) :
    splitLast? "-iat".toList s.chars =
      some (s.start ++ s.fields.flatMap (List.cons '-'), s.iat) := by
  rw [chars_eq, splitLast?_iat _ (splitLast?_iat_of_readChars? h.iat)]

theorem Spells.reverse_splitWhere (h : s.Spells id) :
    (splitWhere (· == '-') (s.start ++ s.fields.flatMap (List.cons '-'))).reverse = s.parts := by
  rw [splitWhere_beq, splitOn_flatMap_cons _ h.dash_notMem, List.reverse_append, parts]

theorem tag_ne {as bs : List Char} : "cpm".toList ++ as ≠ "nc".toList ++ bs := nofun

/-- A text is spelled in one way only. -/
theorem Spells.unique {id' : TestId} (hs : s.Spells id) (ht : t.Spells id')
    (h : s.chars = t.chars) : s = t := by
  have hsplit := congrArg (splitLast? "-iat".toList) h
  rw [hs.splitLast?_chars, ht.splitLast?_chars, Option.some.injEq, Prod.mk.injEq] at hsplit
  have hparts : s.parts = t.parts := by
    rw [← hs.reverse_splitWhere, ← ht.reverse_splitWhere, hsplit.1]
  simp only [parts_eq, List.cons.injEq, List.append_cancel_left_eq] at hparts
  obtain ⟨hwr, hnf, hrs, hbs, hmachine⟩ := hparts
  have hrest : s.clientsPerMachine = t.clientsPerMachine ∧ s.numClients = t.numClients ∧
      (s.start.splitOn '-').reverse = (t.start.splitOn '-').reverse := by
    unfold machineParts at hmachine
    cases hcs : s.clientsPerMachine <;> cases hct : t.clientsPerMachine <;>
      simp only [hcs, hct, List.nil_append, List.singleton_append, List.cons.injEq,
        List.append_cancel_left_eq] at hmachine
    · exact ⟨rfl, hmachine⟩
    · exact absurd hmachine.1.symm tag_ne
    · exact absurd hmachine.1 tag_ne
    · exact ⟨by rw [hmachine.1], hmachine.2⟩
  obtain ⟨hcpm, hnc, hstart⟩ := hrest
  have hjoin := congrArg ['-'].intercalate (List.reverse_injective hstart)
  rw [List.intercalate_splitOn, List.intercalate_splitOn] at hjoin
  cases s
  cases t
  simp_all

end Spelling

/-- Every spelling is read as the id that it spells. -/
theorem read_of_spells {s : Spelling} {id : TestId} {text : String} (h : s.Spells id)
    (htext : s.chars = text.toList) : TestId.read text = .ok id := by
  have hjoin : String.ofList (['-'].intercalate (s.start.splitOn '-').reverse.reverse) =
      id.prefixText := by
    rw [List.reverse_reverse, List.intercalate_splitOn, h.start, String.ofList_toList]
  have hne : (s.start.splitOn '-').reverse ≠ [] := by simp
  have htake (text tag : String) {cs : List Char} {n : ℕ} (hcs : SpellsNatural wordBits cs n)
      (parts : List (List Char)) :
      takeField text tag ((tag.toList ++ cs) :: parts) = .ok (n, parts) :=
    takeField_eq_ok_iff.mpr ⟨cs, rfl, hcs⟩
  have hmachine := h.clientsPerMachine
  unfold TestId.read
  rw [← htext, h.splitLast?_chars]
  dsimp only
  rw [h.iat]
  dsimp only
  rw [h.reverse_splitWhere, Spelling.parts_eq, htake _ _ h.writeRatio, ok_bind,
    htake _ _ h.filesPerClient, ok_bind, htake _ _ h.recordSize, ok_bind, htake _ _ h.batchSize,
    ok_bind]
  obtain ⟨system, prefixText, numClients, clientsPerMachine, batchSize, recordSize, filesPerClient,
    writeRatio, iat⟩ := id
  unfold Spelling.machineParts
  cases hcs : s.clientsPerMachine with
  | none =>
    rw [hcs] at hmachine
    obtain ⟨rfl, rfl⟩ := hmachine
    rw [List.nil_append]
    have hshows : showsPerMachine
        (("nc".toList ++ s.numClients) :: (s.start.splitOn '-').reverse) = false := rfl
    rw [hshows]
    simp only [if_false, pure_bind, Bool.false_eq_true]
    rw [htake _ _ h.numClients]
    simp only [ok_bind, List.isEmpty_iff, hne, if_false, hjoin]
    rfl
  | some cs =>
    rw [hcs] at hmachine
    obtain ⟨rfl, hcpm⟩ := hmachine
    rw [List.singleton_append]
    have hshows : showsPerMachine (("cpm".toList ++ cs) :: ("nc".toList ++ s.numClients) ::
        (s.start.splitOn '-').reverse) = true := rfl
    rw [hshows, if_pos rfl, htake _ _ hcpm]
    simp only [ok_bind, pure_bind]
    rw [htake _ _ h.numClients]
    simp only [ok_bind, List.isEmpty_iff, hne, if_false, hjoin]
    rfl

theorem intercalate_append {α : Type} (a : α) {front : List (List α)} (h : front ≠ [])
    (back : List (List α)) :
    [a].intercalate (front ++ back) = [a].intercalate front ++ back.flatMap (List.cons a) := by
  obtain ⟨part, front, rfl⟩ := List.exists_cons_of_ne_nil h
  clear h
  induction front generalizing part with
  | cons next front ih =>
    have hnext := ih next
    rw [List.cons_append] at hnext
    rw [List.cons_append, List.cons_append, List.intercalate_cons_cons, hnext,
      List.intercalate_cons_cons, ← List.append_assoc]
  | nil =>
    rw [List.singleton_append, List.intercalate_singleton]
    induction back generalizing part with
    | nil => simp
    | cons next back ih =>
      rw [List.intercalate_cons_cons, ih, List.flatMap_cons]
      simp

/-- The parts of a text tell the text in front of the mark. -/
theorem Spelling.eq_of_parts {s : Spelling} {rest : List Char} {parts : List (List Char)}
    (hne : parts ≠ []) (hstart : s.start = ['-'].intercalate parts.reverse)
    (h : (splitWhere (· == '-') rest).reverse = s.fields.reverse ++ parts) :
    rest = s.start ++ s.fields.flatMap (List.cons '-') := by
  rw [splitWhere_beq, List.reverse_eq_iff, List.reverse_append, List.reverse_reverse] at h
  rw [hstart, ← intercalate_append '-' (List.reverse_ne_nil_iff.mpr hne), ← h,
    List.intercalate_splitOn]

theorem takeField_bind_eq_ok {α : Type} {text tag : String} {parts : List (List Char)}
    {next : ℕ × List (List Char) → Except Failure α} {a : α} :
    (takeField text tag parts >>= next) = .ok a ↔ ∃ n cs rest,
      parts = (tag.toList ++ cs) :: rest ∧ SpellsNatural wordBits cs n ∧
        next (n, rest) = .ok a := by
  rw [bind_eq_ok]
  constructor
  · rintro ⟨⟨n, rest⟩, hfield, hnext⟩
    obtain ⟨cs, hparts, hcs⟩ := takeField_eq_ok_iff.mp hfield
    exact ⟨n, cs, rest, hparts, hcs, hnext⟩
  · rintro ⟨n, cs, rest, hparts, hcs, hnext⟩
    exact ⟨(n, rest), takeField_eq_ok_iff.mpr ⟨cs, hparts, hcs⟩, hnext⟩

/-- Whatever is read as an id is a spelling of it. -/
theorem exists_spelling {text : String} {id : TestId} (h : TestId.read text = .ok id) :
    ∃ s : Spelling, s.Spells id ∧ s.chars = text.toList := by
  unfold TestId.read at h
  split at h
  next => cases h
  next rest iat hsplit =>
  split at h
  next => cases h
  next _ hiat =>
  obtain ⟨htext, -⟩ := eq_of_splitLast? (by decide) hsplit
  obtain ⟨_, wr, _, hparts, hwr, hnext⟩ := takeField_bind_eq_ok.mp h
  obtain ⟨_, nf, _, rfl, hnf, hnext⟩ := takeField_bind_eq_ok.mp hnext
  obtain ⟨_, rs, _, rfl, hrs, hnext⟩ := takeField_bind_eq_ok.mp hnext
  obtain ⟨_, bs, parts, rfl, hbs, hnext⟩ := takeField_bind_eq_ok.mp hnext
  dsimp only at hnext
  split_ifs at hnext with hshows
  · obtain ⟨_, cpm, _, rfl, hcpm, hnext⟩ := takeField_bind_eq_ok.mp hnext
    rw [pure_bind] at hnext
    obtain ⟨_, nc, parts, rfl, hnc, hlast⟩ := takeField_bind_eq_ok.mp hnext
    dsimp only at hlast
    split_ifs at hlast with hempty
    cases hlast
    let s : Spelling := ⟨['-'].intercalate parts.reverse, nc, some cpm, bs, rs, nf, wr, iat⟩
    have hrest : rest = s.start ++ s.fields.flatMap (List.cons '-') :=
      Spelling.eq_of_parts (by simpa using hempty) rfl hparts
    refine ⟨s, ⟨String.toList_ofList.symm, hnc, ⟨rfl, hcpm⟩, hbs, hrs, hnf, hwr, hiat⟩, ?_⟩
    rw [s.chars_eq, htext, hrest]
  · rw [pure_bind] at hnext
    obtain ⟨_, nc, parts, rfl, hnc, hlast⟩ := takeField_bind_eq_ok.mp hnext
    dsimp only at hlast
    split_ifs at hlast with hempty
    cases hlast
    let s : Spelling := ⟨['-'].intercalate parts.reverse, nc, none, bs, rs, nf, wr, iat⟩
    have hrest : rest = s.start ++ s.fields.flatMap (List.cons '-') :=
      Spelling.eq_of_parts (by simpa using hempty) rfl hparts
    refine ⟨s, ⟨String.toList_ofList.symm, hnc, ⟨rfl, rfl⟩, hbs, hrs, hnf, hwr, hiat⟩, ?_⟩
    rw [s.chars_eq, htext, hrest]

def Orderly {α : Type} (x : Except Failure α) : Prop := ∀ f, x = .error f → f.cause ≠ .broken

theorem Orderly.bind {α β : Type} {x : Except Failure α} {next : α → Except Failure β}
    (hx : Orderly x) (hnext : ∀ a, Orderly (next a)) : Orderly (x >>= next) := by
  cases x with
  | error e =>
    intro f hf
    cases hf
    exact hx e rfl
  | ok a => exact hnext a

theorem orderly_takeField (text tag : String) (parts : List (List Char)) :
    Orderly (takeField text tag parts) := by
  intro f hf
  unfold takeField at hf
  split at hf
  · cases hf
    nofun
  · split_ifs at hf
    · split at hf <;> cases hf
      nofun
    · cases hf
      nofun

theorem orderly_read (text : String) : Orderly (TestId.read text) := by
  have hlast (empty : Bool) (id : TestId) :
      Orderly (if empty then .error (.refuse (.idWithoutPrefix text)) else pure id) := by
    intro f hf
    split_ifs at hf <;> cases hf
    nofun
  unfold TestId.read
  split
  · rintro f ⟨⟩
    nofun
  split
  · rintro f ⟨⟩
    nofun
  iterate 4
    apply Orderly.bind (orderly_takeField _ _ _)
    rintro ⟨_, parts⟩
  dsimp only
  split_ifs
  · apply Orderly.bind (orderly_takeField _ _ _)
    intro cpm
    rw [pure_bind]
    exact Orderly.bind (orderly_takeField _ _ _) fun nc => hlast _ _
  · rw [pure_bind]
    exact Orderly.bind (orderly_takeField _ _ _) fun nc => hlast _ _

/-- The clients of a machine are spelled whenever the part in front of the batch size begins as
they do. -/
theorem Spelling.Spells.isSome_iff {s : Spelling} {id : TestId} (h : s.Spells id) :
    s.clientsPerMachine.isSome ↔
      ∃ before part, s.front = before ++ "-cpm".toList ++ part ∧ '-' ∉ part := by
  have hmachine := h.clientsPerMachine
  unfold Spelling.front Spelling.machineChars
  cases hcs : s.clientsPerMachine with
  | some cs =>
    rw [hcs] at hmachine
    exact iff_of_true rfl ⟨s.start ++ "-nc".toList ++ s.numClients, cs,
      (List.append_assoc ..).symm, hmachine.2.dash_notMem⟩
  | none =>
    refine iff_of_false Bool.false_ne_true ?_
    rintro ⟨before, part, heq, hpart⟩
    have hnc : '-' ∉ "nc".toList ++ s.numClients := by
      simp [h.numClients.dash_notMem]
    have hcpm : '-' ∉ "cpm".toList ++ part := by
      simp [hpart]
    have hparts : s.start ++ '-' :: ("nc".toList ++ s.numClients) =
        before ++ '-' :: ("cpm".toList ++ part) := by
      simpa using heq
    exact tag_ne (eq_of_append_cons_eq hnc hcpm hparts).2.symm

/-- A text is read as an id exactly if it is spelled as one, and there is at most one spelling. It
holds the clients of a machine exactly if the part in front of the batch size begins as they do.
Every other text is refused. -/
theorem read_iff_spelled (text : String) :
    (∀ id, TestId.read text = .ok id ↔ ∃ s : Spelling, s.Spells id ∧ s.chars = text.toList) ∧
      (∀ (s t : Spelling) (id id' : TestId), s.Spells id → t.Spells id' →
        s.chars = text.toList → t.chars = text.toList → s = t) ∧
      (∀ (s : Spelling) (id : TestId), s.Spells id → s.chars = text.toList →
        (s.clientsPerMachine.isSome ↔
          ∃ before part, s.front = before ++ "-cpm".toList ++ part ∧ '-' ∉ part)) ∧
      ((¬∃ (s : Spelling) (id : TestId), s.Spells id ∧ s.chars = text.toList) →
        ∃ f, TestId.read text = .error f ∧ f.cause ≠ .broken) := by
  refine ⟨fun id => ⟨exists_spelling, fun ⟨s, hs, htext⟩ => read_of_spells hs htext⟩,
    fun s t id id' hs ht htext htext' => hs.unique ht (htext.trans htext'.symm),
    fun s id hs _ => hs.isSome_iff, fun hnone => ?_⟩
  cases hread : TestId.read text with
  | ok id =>
    obtain ⟨s, hs, htext⟩ := exists_spelling hread
    exact absurd ⟨s, id, hs, htext⟩ hnone
  | error f => exact ⟨f, rfl, orderly_read text f hread⟩

end TestId

end ClusterBench
