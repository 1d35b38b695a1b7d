import ClusterBench.Proofs.Json.Documents
import ClusterBench.Results.TrailingCommas

/-!
# What dropping trailing commas does to JSON

The place in the text is outside of quotes at the end of each token, whatever a quoted text holds.
So a comma is dropped if it is in excess, and a comma that separates elements is kept.
-/

namespace ClusterBench

open Json

namespace TrailingCommas

theorem closesNext_gap (gap : Gap) (cs : List Char) :
    closesNext (gap.chars ++ cs) = closesNext cs := by
  rw [closesNext, closesNext, List.dropWhile_append_of_pos]
  exact fun c hc => isBlank_of_isAsciiBlank (gap.blank c hc)

theorem closesNext_starts {c : Char} (h : Json.Starts c) (cs : List Char) :
    closesNext (c :: cs) = false := by
  have hclose : c ≠ ']' ∧ c ≠ '\x7d' := by
    have hnot := h.not_mem
    simp only [List.mem_cons, not_or] at hnot
    exact ⟨hnot.2.2.1, hnot.2.2.2.1⟩
  rw [closesNext, List.dropWhile_cons_of_neg (by rw [h.not_isBlank]; exact Bool.false_ne_true)]
  split
  next heq => exact absurd (List.cons.inj heq).1 hclose.1
  next heq => exact absurd (List.cons.inj heq).1 hclose.2
  next => rfl

theorem stripFrom_cons {c : Char} (h : c ≠ ',') (cs : List Char) :
    stripFrom .outside (c :: cs) = c :: stripFrom (Place.outside.next c) cs := by
  rw [stripFrom, if_neg]
  exact fun hcomma => h hcomma.2.1

/-- Inside of quotes everything is kept. -/
theorem stripFrom_cons_of_ne {place : Place} (h : place ≠ .outside) (c : Char) (cs : List Char) :
    stripFrom place (c :: cs) = c :: stripFrom (place.next c) cs := by
  rw [stripFrom, if_neg]
  exact fun hcomma => h hcomma.1

theorem stripFrom_quoted (c : Char) (cs : List Char) :
    stripFrom .quoted (c :: cs) = c :: stripFrom (Place.quoted.next c) cs :=
  stripFrom_cons_of_ne (by decide) c cs

theorem stripFrom_escaped (c : Char) (cs : List Char) :
    stripFrom .escaped (c :: cs) = c :: stripFrom .quoted cs :=
  stripFrom_cons_of_ne (by decide) c cs

/-- Outside of quotes, what holds no quote and no comma is kept. -/
theorem stripFrom_append {cs : List Char} (h : ∀ c ∈ cs, c ≠ '"' ∧ c ≠ ',') (rest : List Char) :
    stripFrom .outside (cs ++ rest) = cs ++ stripFrom .outside rest := by
  induction cs with
  | nil => rfl
  | cons c cs ih =>
    rw [List.forall_mem_cons] at h
    have hnext : Place.outside.next c = .outside := by
      rw [Place.next]
      exact h.1.1
    rw [List.cons_append, stripFrom_cons h.1.2, hnext, ih h.2, List.cons_append]

theorem stripFrom_gap (gap : Gap) (rest : List Char) :
    stripFrom .outside (gap.chars ++ rest) = gap.chars ++ stripFrom .outside rest := by
  apply stripFrom_append
  intro c hc
  have hblank := gap.blank c hc
  constructor <;> (rintro rfl; cases hblank)

/-- Characters that stand for themselves do not end a quoted text. -/
theorem stripFrom_plain {cs : List Char} (h : ∀ c ∈ cs, Json.IsPlain c) (rest : List Char) :
    stripFrom .quoted (cs ++ rest) = cs ++ stripFrom .quoted rest := by
  induction cs with
  | nil => rfl
  | cons c cs ih =>
    rw [List.forall_mem_cons] at h
    rw [List.cons_append, stripFrom_quoted, Place.next, ih h.2, List.cons_append]
    · exact h.1.2.1
    · exact h.1.1

theorem stripFrom_glyph (glyph : Glyph) (rest : List Char) :
    stripFrom .quoted (glyph.chars ++ rest) = glyph.chars ++ stripFrom .quoted rest := by
  rcases glyph.chars_cases with ⟨c, hchars, hc⟩ | ⟨c, cs, hchars, -, hcs⟩
  · rw [hchars]
    exact stripFrom_plain (by simpa using hc) rest
  · rw [hchars]
    change stripFrom .quoted ('\\' :: c :: (cs ++ rest)) = _
    rw [stripFrom_quoted]
    change '\\' :: stripFrom .escaped (c :: (cs ++ rest)) = _
    rw [stripFrom_escaped, stripFrom_plain hcs]
    rfl

theorem stripFrom_quotedChars (glyphs : List Glyph) (rest : List Char) :
    stripFrom .outside (quotedChars glyphs ++ rest) =
      quotedChars glyphs ++ stripFrom .outside rest := by
  have hglyphs : stripFrom .quoted (glyphs.flatMap Glyph.chars ++ '"' :: rest) =
      glyphs.flatMap Glyph.chars ++ '"' :: stripFrom .outside rest := by
    induction glyphs with
    | nil => exact stripFrom_quoted '"' rest
    | cons glyph glyphs ih =>
      rw [List.flatMap_cons, List.append_assoc, stripFrom_glyph, ih, List.append_assoc]
  simp only [quotedChars, List.cons_append, List.append_assoc, List.nil_append]
  rw [stripFrom_cons (by decide)]
  exact congrArg _ hglyphs

theorem stripFrom_number (n : NumberText) (rest : List Char) :
    stripFrom .outside (n.chars ++ rest) = n.chars ++ stripFrom .outside rest := by
  apply stripFrom_append
  intro c hc
  rcases n.mem_chars hc with hdigit | hmem
  · constructor <;> (rintro rfl; cases hdigit)
  · constructor <;> (rintro rfl; simp at hmem)

theorem stripFrom_bracket (c : Char) (h : c ∈ ['[', ']', '\x7b', '\x7d']) (rest : List Char) :
    stripFrom .outside (c :: rest) = c :: stripFrom .outside rest := by
  have hplain : ∀ c' ∈ [c], c' ≠ '"' ∧ c' ≠ ',' := by
    rw [List.forall_mem_singleton]
    fin_cases h <;> simp
  exact stripFrom_append hplain rest

/-- A comma that separates elements is kept. -/
theorem stripFrom_comma {rest : List Char} (h : closesNext rest = false) :
    stripFrom .outside (',' :: rest) = ',' :: stripFrom .outside rest := by
  rw [stripFrom, if_neg]
  · rfl
  · rintro ⟨-, -, hcloses⟩
    rw [h] at hcloses
    cases hcloses

/-- A comma in excess is dropped, and so is nothing else in front of a closing bracket. -/
theorem stripFrom_excess (loose : Bool) (excess : Option Gap) {close : Char}
    (hclose : close = ']' ∨ close = '\x7d') (rest : List Char) :
    stripFrom .outside (excessChars loose excess ++ close :: rest) =
      excessChars false excess ++ close :: stripFrom .outside rest := by
  have hkept : stripFrom .outside (close :: rest) = close :: stripFrom .outside rest := by
    rcases hclose with rfl | rfl <;> exact stripFrom_cons (by decide) rest
  cases excess with
  | none => exact hkept
  | some gap =>
    have hgap : stripFrom .outside (gap.chars ++ close :: rest) =
        gap.chars ++ close :: stripFrom .outside rest := by rw [stripFrom_gap, hkept]
    cases loose with
    | false => exact hgap
    | true =>
      have hcloses : closesNext (gap.chars ++ close :: rest) = true := by
        rw [closesNext_gap]
        rcases hclose with rfl | rfl <;> rfl
      change stripFrom .outside (',' :: (gap.chars ++ close :: rest)) = _
      rw [stripFrom, if_pos ⟨rfl, rfl, hcloses⟩]
      exact hgap

theorem closesNext_value (gap : Gap) (t : Rendering) (loose : Bool) (rest : List Char) :
    closesNext (gap.chars ++ (t.chars loose ++ rest)) = false := by
  obtain ⟨c, cs, hstart, hc⟩ := t.exists_start loose
  rw [closesNext_gap, hstart]
  exact closesNext_starts hc _

theorem closesNext_name (name : NameText) (rest : List Char) :
    closesNext (name.chars ++ rest) = false := by
  rw [NameText.chars, List.append_assoc, closesNext_gap]
  exact closesNext_starts (by simp [Json.Starts]) _

theorem stripFrom_name (name : NameText) (rest : List Char) :
    stripFrom .outside (name.chars ++ rest) = name.chars ++ stripFrom .outside rest := by
  have hcolon (cs : List Char) : stripFrom .outside (':' :: cs) = ':' :: stripFrom .outside cs :=
    stripFrom_cons (by decide) cs
  simp only [NameText.chars, List.append_assoc, List.cons_append, stripFrom_gap,
    stripFrom_quotedChars, hcolon]

mutual

/-- The commas in excess are dropped from a value, and everything else is kept. -/
theorem stripFrom_chars (loose : Bool) (t : Rendering) (rest : List Char) :
    stripFrom .outside (t.chars loose ++ rest) = t.chars false ++ stripFrom .outside rest := by
  match t with
  | .null | .bool true | .bool false =>
    rw [Rendering.chars, Rendering.chars]
    exact stripFrom_append (by simp) rest
  | .number n => exact stripFrom_number n rest
  | .text glyphs => exact stripFrom_quotedChars glyphs rest
  | .emptyArray inside =>
    simp only [Rendering.chars, List.cons_append, List.append_assoc, List.nil_append,
      stripFrom_bracket '[' (by decide), stripFrom_gap, stripFrom_bracket ']' (by decide)]
  | .array before value more =>
    simp only [Rendering.chars, List.cons_append, List.append_assoc,
      stripFrom_bracket '[' (by decide), stripFrom_gap, stripFrom_chars loose value,
      stripFrom_items loose more]
  | .emptyObject inside =>
    simp only [Rendering.chars, List.cons_append, List.append_assoc, List.nil_append,
      stripFrom_bracket '\x7b' (by decide), stripFrom_gap, stripFrom_bracket '\x7d' (by decide)]
  | .object name value more =>
    simp only [Rendering.chars, List.cons_append, List.append_assoc,
      stripFrom_bracket '\x7b' (by decide), stripFrom_name, stripFrom_chars loose value,
      stripFrom_members loose more]

theorem stripFrom_items (loose : Bool) (more : MoreItems) (rest : List Char) :
    stripFrom .outside (more.chars loose ++ rest) =
      more.chars false ++ stripFrom .outside rest := by
  match more with
  | .close after excess =>
    simp only [MoreItems.chars, List.append_assoc, List.singleton_append, stripFrom_gap,
      stripFrom_excess loose excess (.inl rfl)]
  | .next after before value more =>
    simp only [MoreItems.chars, List.append_assoc, List.cons_append, stripFrom_gap,
      stripFrom_comma (closesNext_value before value loose _), stripFrom_chars loose value,
      stripFrom_items loose more]

theorem stripFrom_members (loose : Bool) (more : MoreMembers) (rest : List Char) :
    stripFrom .outside (more.chars loose ++ rest) =
      more.chars false ++ stripFrom .outside rest := by
  match more with
  | .close after excess =>
    simp only [MoreMembers.chars, List.append_assoc, List.singleton_append, stripFrom_gap,
      stripFrom_excess loose excess (.inr rfl)]
  | .next after name value more =>
    simp only [MoreMembers.chars, List.append_assoc, List.cons_append, stripFrom_gap,
      stripFrom_comma (closesNext_name name _), stripFrom_name, stripFrom_chars loose value,
      stripFrom_members loose more]

end

theorem stripFrom_document (loose : Bool) (d : Document) :
    stripFrom .outside (d.chars loose) = d.chars false := by
  have hafter : stripFrom .outside d.after.chars = d.after.chars := by
    have h := stripFrom_gap d.after []
    rwa [List.append_nil, stripFrom, List.append_nil] at h
  rw [Document.chars, stripFrom_gap, stripFrom_chars, hafter]
  rfl

/-- The commas in excess are dropped from a document and everything else is kept. A text that is
JSON as it stands is not changed. -/
theorem strip_document :
    (∀ d : Document, strip (String.ofList (d.chars true)) = String.ofList (d.chars false)) ∧
      ∀ text : String, (scan (symbols text)).1.skip = .ok () →
        skipBlanks (scan (symbols text)).2 = [] → strip text = text := by
  constructor
  · intro d
    rw [strip, String.toList_ofList, stripFrom_document]
  · intro text hskip hrest
    obtain ⟨d, hd⟩ := exists_document_iff.mpr ⟨hskip, hrest⟩
    rw [strip, hd, stripFrom_document, ← hd, String.ofList_toList]

/-- A text with brackets, quotes and commas inside of quotes. -/
theorem strip_quotedCommas :
    strip "[\x7b\"a,]\": \"\\\\\\\",\x7d\"\x7d , [1,2] ]\n" =
      "[\x7b\"a,]\": \"\\\\\\\",\x7d\"\x7d , [1,2] ]\n" :=
  strip_document.2 _ (by decide +kernel) (by decide +kernel)

end TrailingCommas

end ClusterBench
