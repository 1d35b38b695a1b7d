import ClusterBench.Proofs.Json.Documents

/-!
# What may come next in a document

A phase tells which characters a document may go on with, without the brackets that are open. All
strict texts of documents run through the phases. Between a value and the next character that is no
blank there is no place for a comma unless that character closes an array or an object.
-/

namespace ClusterBench.Json

inductive Phase
  /-- A value may begin, or an empty array or object may end. -/
  | awaiting
  /-- A value must begin, behind a comma. -/
  | demanding
  | quoted
  | escaped
  /-- A number or a word may go on. -/
  | within
  /-- A value has ended. -/
  | behind
deriving DecidableEq

namespace Phase

def starts : Phase → Bool
  | awaiting | demanding => true
  | _ => false

def ends : Phase → Bool
  | within | behind => true
  | _ => false

def nextOutside (phase : Phase) (c : Char) : Option Phase :=
  if isBlank c then some (if phase = within then behind else phase)
  else if c = ',' then if phase.ends then some demanding else none
  else if c = ':' then if phase.ends then some awaiting else none
  else if c = ']' ∨ c = '\x7d' then if phase = demanding then none else some behind
  else if c = '[' ∨ c = '\x7b' then if phase.starts then some awaiting else none
  else if c = '"' then if phase.starts then some quoted else none
  else if phase = behind then none
  else some within

def next : Phase → Char → Option Phase
  | quoted, c =>
    if c < ' ' then none
    else some (if c = '\\' then escaped else if c = '"' then behind else quoted)
  | escaped, c => if c < ' ' then none else some quoted
  | phase, c => phase.nextOutside c

def run : Phase → List Char → Option Phase
  | phase, [] => some phase
  | phase, c :: cs => (phase.next c).bind (run · cs)

theorem run_append (phase : Phase) (as bs : List Char) :
    phase.run (as ++ bs) = (phase.run as).bind (run · bs) := by
  induction as generalizing phase with
  | nil => rfl
  | cons a as ih =>
    rw [List.cons_append, run, run]
    cases phase.next a with
    | none => rfl
    | some next => exact ih next

variable {phase next last : Phase} {c : Char} {as bs : List Char}

theorem run_append_of (h : phase.run as = some next) : phase.run (as ++ bs) = next.run bs := by
  rw [run_append, h]
  rfl

theorem run_cons_of (h : phase.next c = some next) : phase.run (c :: bs) = next.run bs := by
  rw [run, h]
  rfl

theorem next_quoted {c : Char} (h : IsPlain c) : quoted.next c = some quoted := by
  obtain ⟨hquote, hslash, hcontrol⟩ := h
  change (if c < ' ' then none else some _) = _
  rw [if_neg hcontrol, if_neg hslash, if_neg hquote]

theorem next_escaped {c : Char} (h : ¬c < ' ') : escaped.next c = some quoted := if_neg h

theorem next_outside (h : phase ≠ quoted ∧ phase ≠ escaped) (c : Char) :
    phase.next c = phase.nextOutside c := by
  cases phase <;> first | rfl | simp at h

theorem next_blank (h : phase ≠ quoted ∧ phase ≠ escaped) (hc : isBlank c) :
    phase.next c = some (if phase = within then behind else phase) := by
  rw [next_outside h, nextOutside, if_pos hc]

theorem next_quoted_cases (h : quoted.next c = some next) :
    (c = '\\' ∧ next = escaped) ∨ (c = '"' ∧ next = behind) ∨
      (c ≠ '\\' ∧ c ≠ '"' ∧ next = quoted) := by
  change (if c < ' ' then none else some _) = _ at h
  split_ifs at h with hcontrol hslash hquote <;> cases h
  · exact .inl ⟨hslash, rfl⟩
  · exact .inr (.inl ⟨hquote, rfl⟩)
  · exact .inr (.inr ⟨hslash, hquote, rfl⟩)

theorem eq_quoted_of_escaped (h : escaped.next c = some next) : next = quoted := by
  change (if c < ' ' then none else some quoted) = _ at h
  split_ifs at h
  exact (Option.some.inj h).symm

/-- Outside of quotes a comma comes behind a value only. -/
theorem eq_demanding_of_comma (h : phase ≠ quoted ∧ phase ≠ escaped)
    (hnext : phase.next ',' = some next) : phase.ends ∧ next = demanding := by
  rw [next_outside h, nextOutside, if_neg (by decide), if_pos rfl] at hnext
  by_cases hends : phase.ends
  · rw [if_pos hends] at hnext
    exact ⟨hends, (Option.some.inj hnext).symm⟩
  · rw [if_neg hends] at hnext
    cases hnext

theorem outside_of_starts (h : phase.starts) : phase ≠ quoted ∧ phase ≠ escaped := by
  constructor <;> (rintro rfl; cases h)

theorem outside_of_ends (h : phase.ends) : phase ≠ quoted ∧ phase ≠ escaped := by
  constructor <;> (rintro rfl; cases h)

theorem run_blanks (hphase : phase ≠ quoted ∧ phase ≠ escaped ∧ phase ≠ within)
    (h : ∀ c ∈ as, isBlank c) : phase.run as = some phase := by
  induction as with
  | nil => rfl
  | cons a as ih =>
    rw [List.forall_mem_cons] at h
    have hnext := next_blank ⟨hphase.1, hphase.2.1⟩ h.1
    rw [if_neg hphase.2.2] at hnext
    rw [run_cons_of hnext, ih h.2]

theorem run_gap (h : phase.starts) (gap : Gap) : phase.run gap.chars = some phase := by
  apply run_blanks
  · obtain ⟨hquoted, hescaped⟩ := outside_of_starts h
    refine ⟨hquoted, hescaped, ?_⟩
    rintro rfl
    cases h
  · exact fun c hc => isBlank_of_isAsciiBlank (gap.blank c hc)

theorem run_gap_ends (h : phase.ends) (gap : Gap) :
    ∃ next, phase.run gap.chars = some next ∧ next.ends := by
  obtain ⟨chars, hblank⟩ := gap
  cases chars with
  | nil => exact ⟨phase, rfl, h⟩
  | cons c chars =>
    rw [List.forall_mem_cons] at hblank
    have hnext : phase.next c = some behind := by
      rw [next_blank (outside_of_ends h) (isBlank_of_isAsciiBlank hblank.1)]
      cases phase <;> first | rfl | cases h
    refine ⟨behind, ?_, rfl⟩
    rw [run_cons_of hnext]
    exact run_blanks (by decide) fun c hc => isBlank_of_isAsciiBlank (hblank.2 c hc)

def IsBare (c : Char) : Prop :=
  isBlank c = false ∧ c ∉ [',', ':', ']', '\x7d', '[', '\x7b', '"']

theorem next_bare (hphase : phase.starts ∨ phase = within) (hc : IsBare c) :
    phase.next c = some within := by
  obtain ⟨hblank, hmem⟩ := hc
  simp only [List.mem_cons, List.not_mem_nil, or_false, not_or] at hmem
  obtain ⟨hcomma, hcolon, hbracket, hbrace, hopen, hobject, hquote⟩ := hmem
  have hout : phase ≠ quoted ∧ phase ≠ escaped := by
    rcases hphase with h | rfl
    · exact outside_of_starts h
    · decide
  have hbehind : phase ≠ behind := by
    rintro rfl
    rcases hphase with h | h <;> cases h
  rw [next_outside hout, nextOutside, if_neg (by rw [hblank]; exact Bool.false_ne_true),
    if_neg hcomma, if_neg hcolon, if_neg (not_or.mpr ⟨hbracket, hbrace⟩),
    if_neg (not_or.mpr ⟨hopen, hobject⟩), if_neg hquote, if_neg hbehind]

theorem run_bare (hphase : phase.starts ∨ phase = within) (hne : as ≠ []) (h : ∀ c ∈ as, IsBare c) :
    phase.run as = some within := by
  induction as generalizing phase with
  | nil => exact absurd rfl hne
  | cons a as ih =>
    rw [List.forall_mem_cons] at h
    rw [run_cons_of (next_bare hphase h.1)]
    cases as with
    | nil => rfl
    | cons a as => exact ih (.inr rfl) (by simp) h.2

theorem isBare_of_mem_number (n : NumberText) (h : c ∈ n.chars) : IsBare c := by
  rcases n.mem_chars h with hdigit | hmem
  · refine ⟨not_isBlank_of_isDigit hdigit, fun hmem => ?_⟩
    fin_cases hmem <;> cases hdigit
  · fin_cases hmem <;> exact ⟨rfl, by decide⟩

theorem isBare_of_mem_words (h : as ⊆ ['n', 'u', 'l', 't', 'r', 'e', 'f', 'a', 's']) :
    ∀ c ∈ as, IsBare c := by
  intro c hc
  have hmem := h hc
  fin_cases hmem <;> exact ⟨rfl, by decide⟩

theorem run_plain (h : ∀ c ∈ as, IsPlain c) : quoted.run as = some quoted := by
  induction as with
  | nil => rfl
  | cons a as ih =>
    rw [List.forall_mem_cons] at h
    rw [run_cons_of (next_quoted h.1), ih h.2]

theorem run_glyph (glyph : Glyph) : quoted.run glyph.chars = some quoted := by
  rcases glyph.chars_cases with ⟨c, hchars, hc⟩ | ⟨c, cs, hchars, hcontrol, hcs⟩
  · rw [hchars]
    exact run_plain (by simpa using hc)
  · have hescape : quoted.next '\\' = some escaped := by decide
    rw [hchars, run_cons_of hescape, run_cons_of (next_escaped hcontrol), run_plain hcs]

theorem run_quotedChars (h : phase.starts) (glyphs : List Glyph) :
    phase.run (quotedChars glyphs) = some behind := by
  have hglyphs : quoted.run (glyphs.flatMap Glyph.chars ++ ['"']) = some behind := by
    induction glyphs with
    | nil => decide
    | cons glyph glyphs ih =>
      rw [List.flatMap_cons, List.append_assoc, run_append_of (run_glyph glyph), ih]
  have hopen : phase.next '"' = some quoted := by
    cases phase <;> first | rfl | cases h
  rw [quotedChars, run_cons_of hopen, hglyphs]

theorem next_colon (h : phase.ends) : phase.next ':' = some awaiting := by
  cases phase <;> first | rfl | cases h

theorem next_comma (h : phase.ends) : phase.next ',' = some demanding := by
  cases phase <;> first | rfl | cases h

theorem next_open (h : phase.starts) (hc : c = '[' ∨ c = '\x7b') :
    phase.next c = some awaiting := by
  rcases hc with rfl | rfl <;> cases phase <;> first | rfl | cases h

theorem next_close (h : phase = awaiting ∨ phase.ends) (hc : c = ']' ∨ c = '\x7d') :
    phase.next c = some behind := by
  rcases h with rfl | h
  · rcases hc with rfl | rfl <;> rfl
  · rcases hc with rfl | rfl <;> cases phase <;> first | rfl | cases h

theorem run_name (h : phase.starts) (name : NameText) : phase.run name.chars = some awaiting := by
  obtain ⟨next, hgap, hnext⟩ := run_gap_ends (show behind.ends from rfl) name.beforeColon
  rw [NameText.chars, run_append_of (run_gap h name.before),
    run_append_of (run_quotedChars h name.key), run_append_of hgap, run_cons_of (next_colon hnext),
    run_gap rfl name.afterColon]

theorem run_empty (h : phase.starts) {opening closing : Char}
    (hopening : opening = '[' ∨ opening = '\x7b') (hclosing : closing = ']' ∨ closing = '\x7d')
    (inside : Gap) : phase.run (opening :: (inside.chars ++ [closing])) = some behind := by
  rw [run_cons_of (next_open h hopening), run_append_of (run_gap rfl inside),
    run_cons_of (next_close (.inl rfl) hclosing)]
  rfl

/-- A closing bracket behind a value, perhaps behind a comma in excess that is left out. -/
theorem run_close (h : phase.ends) {closing : Char} (hclosing : closing = ']' ∨ closing = '\x7d')
    (after : Gap) (excess : Option Gap) :
    phase.run (after.chars ++ (excessChars false excess ++ [closing])) = some behind := by
  obtain ⟨gap, hgap⟩ := exists_closing_gap after excess
  obtain ⟨next, hrun, hnext⟩ := run_gap_ends h gap
  rw [← List.append_assoc, ← hgap, run_append_of hrun,
    run_cons_of (next_close (.inr hnext) hclosing)]
  rfl

mutual

theorem run_chars (t : Rendering) {phase : Phase} (h : phase.starts) :
    ∃ next, phase.run (t.chars false) = some next ∧ next.ends := by
  match t with
  | .null | .bool true | .bool false =>
    rw [Rendering.chars]
    exact ⟨within, run_bare (.inl h) (by simp) (isBare_of_mem_words (by simp)), rfl⟩
  | .number n =>
    obtain ⟨c, cs, hstart, -⟩ := (Rendering.number n).exists_start false
    rw [hstart]
    refine ⟨within, run_bare (.inl h) (by simp) fun c hc => isBare_of_mem_number n ?_, rfl⟩
    rwa [← hstart] at hc
  | .text glyphs => exact ⟨behind, run_quotedChars h glyphs, rfl⟩
  | .emptyArray inside => exact ⟨behind, run_empty h (.inl rfl) (.inl rfl) inside, rfl⟩
  | .array before value more =>
    obtain ⟨next, hvalue, hnext⟩ := run_chars value (show awaiting.starts from rfl)
    refine ⟨behind, ?_, rfl⟩
    rw [Rendering.chars, run_cons_of (next_open h (.inl rfl)), run_append_of (run_gap rfl before),
      run_append_of hvalue, run_items more hnext]
  | .emptyObject inside => exact ⟨behind, run_empty h (.inr rfl) (.inr rfl) inside, rfl⟩
  | .object name value more =>
    obtain ⟨next, hvalue, hnext⟩ := run_chars value (show awaiting.starts from rfl)
    refine ⟨behind, ?_, rfl⟩
    rw [Rendering.chars, run_cons_of (next_open h (.inr rfl)), run_append_of (run_name rfl name),
      run_append_of hvalue, run_members more hnext]

theorem run_items (more : MoreItems) {phase : Phase} (h : phase.ends) :
    phase.run (more.chars false) = some behind := by
  match more with
  | .close after excess => exact run_close h (.inl rfl) after excess
  | .next after before value more =>
    obtain ⟨next, hafter, hnext⟩ := run_gap_ends h after
    obtain ⟨last, hvalue, hlast⟩ := run_chars value (show demanding.starts from rfl)
    rw [MoreItems.chars, run_append_of hafter, run_cons_of (next_comma hnext),
      run_append_of (run_gap rfl before), run_append_of hvalue, run_items more hlast]

theorem run_members (more : MoreMembers) {phase : Phase} (h : phase.ends) :
    phase.run (more.chars false) = some behind := by
  match more with
  | .close after excess => exact run_close h (.inr rfl) after excess
  | .next after name value more =>
    obtain ⟨next, hafter, hnext⟩ := run_gap_ends h after
    obtain ⟨last, hvalue, hlast⟩ := run_chars value (show awaiting.starts from rfl)
    rw [MoreMembers.chars, run_append_of hafter, run_cons_of (next_comma hnext),
      run_append_of (run_name rfl name), run_append_of hvalue, run_members more hlast]

end

def Accepts (phase : Phase) (cs : List Char) : Prop := ∃ last, phase.run cs = some last ∧ last.ends

theorem accepts_append_iff : phase.Accepts (as ++ bs) ↔
    ∃ next, phase.run as = some next ∧ next.Accepts bs := by
  simp only [Accepts, run_append, Option.bind_eq_some_iff]
  constructor
  · rintro ⟨last, ⟨next, has, hbs⟩, hlast⟩
    exact ⟨next, has, last, hbs, hlast⟩
  · rintro ⟨next, has, last, hbs, hlast⟩
    exact ⟨last, ⟨next, has, hbs⟩, hlast⟩

theorem accepts_append_of (h : phase.run as = some next) :
    phase.Accepts (as ++ bs) ↔ next.Accepts bs := by
  rw [Accepts, run_append_of h]
  rfl

theorem accepts_cons_iff : phase.Accepts (c :: bs) ↔
    ∃ next, phase.next c = some next ∧ next.Accepts bs := by
  simp only [Accepts, run, Option.bind_eq_some_iff]
  constructor
  · rintro ⟨last, ⟨next, hc, hbs⟩, hlast⟩
    exact ⟨next, hc, last, hbs, hlast⟩
  · rintro ⟨next, hc, last, hbs, hlast⟩
    exact ⟨last, ⟨next, hc, hbs⟩, hlast⟩

theorem accepts_document (d : Document) : awaiting.Accepts (d.chars false) := by
  obtain ⟨next, hvalue, hnext⟩ := run_chars d.value (show awaiting.starts from rfl)
  obtain ⟨last, hafter, hlast⟩ := run_gap_ends hnext d.after
  refine ⟨last, ?_, hlast⟩
  rw [Document.chars, run_append_of (run_gap rfl d.before), run_append_of hvalue, hafter]

end Phase

def upcoming (cs : List Char) : Option Char := cs.find? fun c => !isBlank c

theorem upcoming_blank {c : Char} (h : isBlank c) (cs : List Char) :
    upcoming (c :: cs) = upcoming cs :=
  List.find?_cons_of_neg (by simp [h])

theorem upcoming_cons {c : Char} (h : isBlank c = false) (cs : List Char) :
    upcoming (c :: cs) = some c :=
  List.find?_cons_of_pos (by simp [h])

namespace Phase

variable {cs : List Char}

/-- Behind a comma a value must come. -/
theorem upcoming_of_demanding (h : demanding.Accepts cs) :
    ∃ c, upcoming cs = some c ∧ c ∉ [',', ':', ']', '\x7d'] := by
  induction cs with
  | nil =>
    obtain ⟨last, hrun, hends⟩ := h
    cases hrun
    cases hends
  | cons c cs ih =>
    obtain ⟨next, hnext, haccepts⟩ := accepts_cons_iff.mp h
    by_cases hblank : isBlank c
    · rw [next_blank (by decide) hblank] at hnext
      cases hnext
      rw [upcoming_blank hblank]
      exact ih haccepts
    · rw [Bool.not_eq_true] at hblank
      refine ⟨c, upcoming_cons hblank cs, fun hmem => ?_⟩
      fin_cases hmem <;> cases hnext

/-- Behind a value no other value may come at once. -/
theorem upcoming_of_behind (h : behind.Accepts cs) {c : Char} (hc : upcoming cs = some c) :
    c ∈ [',', ':', ']', '\x7d'] := by
  induction cs with
  | nil => cases hc
  | cons b cs ih =>
    obtain ⟨next, hnext, haccepts⟩ := accepts_cons_iff.mp h
    by_cases hblank : isBlank b
    · rw [next_blank (by decide) hblank] at hnext
      cases hnext
      rw [upcoming_blank hblank] at hc
      exact ih haccepts hc
    · rw [Bool.not_eq_true] at hblank
      rw [upcoming_cons hblank] at hc
      cases hc
      by_contra hmem
      simp only [List.mem_cons, List.not_mem_nil, or_false, not_or] at hmem
      obtain ⟨hcomma, hcolon, hbracket, hbrace⟩ := hmem
      have hnone : behind.nextOutside c = none := by
        simp [nextOutside, hblank, hcomma, hcolon, hbracket, hbrace, starts]
      rw [next_outside (by decide), hnone] at hnext
      cases hnext

theorem upcoming_of_ends {phase : Phase} (hends : phase.ends) (h : phase.Accepts cs)
    (hblank : ∀ c ∈ cs.head?, isBlank c) {c : Char} (hc : upcoming cs = some c) :
    c ∈ [',', ':', ']', '\x7d'] := by
  cases cs with
  | nil => cases hc
  | cons b cs =>
    have hb : isBlank b := hblank b rfl
    obtain ⟨next, hnext, haccepts⟩ := accepts_cons_iff.mp h
    have hbehind : next = behind := by
      rw [next_blank (outside_of_ends hends) hb] at hnext
      cases phase <;> cases hends <;> exact (Option.some.inj hnext).symm
    subst hbehind
    rw [upcoming_blank hb] at hc
    exact upcoming_of_behind haccepts hc

end Phase

end ClusterBench.Json
