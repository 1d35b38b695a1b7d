import ClusterBench.Proofs.Json.Documents

/-!
# Documents without some of their line ends

Line feeds and carriage returns stand in gaps only. So a document from which some of them are
dropped is a document of the same value.
-/

namespace ClusterBench.Json

/-- The second text is the first one without some line feeds and carriage returns. -/
inductive Thinned : List Char → List Char → Prop
  | nil : Thinned [] []
  | keep (c : Char) {cs ds : List Char} (h : Thinned cs ds) : Thinned (c :: cs) (c :: ds)
  | drop {c : Char} {cs ds : List Char} (hc : c = '\n' ∨ c = '\r') (h : Thinned cs ds) :
    Thinned (c :: cs) ds

namespace Thinned

variable {as cs ds : List Char}

theorem refl : (cs : List Char) → Thinned cs cs
  | [] => .nil
  | c :: cs => .keep c (refl cs)

theorem append_left (as : List Char) (h : Thinned cs ds) : Thinned (as ++ cs) (as ++ ds) := by
  induction as with
  | nil => exact h
  | cons a as ih => exact .keep a ih

/-- What holds no control character is kept. -/
theorem exists_of_solid (hsolid : ∀ c ∈ as, ¬c < ' ') (h : Thinned (as ++ cs) ds) :
    ∃ rest, ds = as ++ rest ∧ Thinned cs rest := by
  induction as generalizing ds with
  | nil => exact ⟨ds, rfl, h⟩
  | cons a as ih =>
    rw [List.forall_mem_cons] at hsolid
    cases h with
    | keep _ h =>
      obtain ⟨rest, rfl, hrest⟩ := ih hsolid.2 h
      exact ⟨rest, rfl, hrest⟩
    | drop hc h =>
      have hcontrol : a < ' ' := by rcases hc with rfl | rfl <;> decide
      exact absurd hcontrol hsolid.1

theorem exists_of_cons {c : Char} (hsolid : ¬c < ' ') (h : Thinned (c :: cs) ds) :
    ∃ rest, ds = c :: rest ∧ Thinned cs rest := by
  have hsingle : ∀ b ∈ [c], ¬b < ' ' := List.forall_mem_singleton.mpr hsolid
  exact exists_of_solid hsingle h

theorem exists_of_gap {gap : Gap} (h : Thinned (gap.chars ++ cs) ds) :
    ∃ (gap' : Gap) (rest : List Char), ds = gap'.chars ++ rest ∧ Thinned cs rest := by
  obtain ⟨chars, hblank⟩ := gap
  induction chars generalizing ds with
  | nil => exact ⟨.empty, ds, rfl, h⟩
  | cons c chars ih =>
    rw [List.forall_mem_cons] at hblank
    cases h with
    | keep _ h =>
      obtain ⟨gap, rest, rfl, hrest⟩ := ih hblank.2 h
      exact ⟨⟨c :: gap.chars, List.forall_mem_cons.mpr ⟨hblank.1, gap.blank⟩⟩, rest, rfl, hrest⟩
    | drop hc h => exact ih hblank.2 h

theorem exists_of_quoted {glyphs : List Glyph} (h : Thinned (quotedChars glyphs ++ cs) ds) :
    ∃ rest, ds = quotedChars glyphs ++ rest ∧ Thinned cs rest := by
  have hglyph (glyph : Glyph) : ∀ c ∈ glyph.chars, ¬c < ' ' := by
    rcases glyph.chars_cases with ⟨c, hchars, hc⟩ | ⟨c, cs, hchars, hcontrol, hcs⟩
    · rw [hchars, List.forall_mem_singleton]
      exact hc.2.2
    · rw [hchars, List.forall_mem_cons, List.forall_mem_cons]
      exact ⟨by decide, hcontrol, fun c hc => (hcs c hc).2.2⟩
  apply exists_of_solid _ h
  simp only [quotedChars, List.forall_mem_cons, List.forall_mem_append, List.forall_mem_flatMap]
  exact ⟨by decide, fun glyph _ => hglyph glyph, by simp⟩

theorem exists_of_name {name : NameText} (h : Thinned (name.chars ++ cs) ds) :
    ∃ (name' : NameText) (rest : List Char), ds = name'.chars ++ rest ∧ name'.key = name.key ∧
      Thinned cs rest := by
  simp only [NameText.chars, List.append_assoc, List.cons_append] at h
  obtain ⟨before, _, rfl, hbefore⟩ := exists_of_gap h
  obtain ⟨_, rfl, hkey⟩ := exists_of_quoted hbefore
  obtain ⟨beforeColon, _, rfl, hbeforeColon⟩ := exists_of_gap hkey
  obtain ⟨_, rfl, hmark⟩ := exists_of_cons (by decide) hbeforeColon
  obtain ⟨afterColon, rest, rfl, hrest⟩ := exists_of_gap hmark
  exact ⟨⟨before, name.key, beforeColon, afterColon⟩, rest, by simp [NameText.chars], rfl, hrest⟩

/-- The gap in front of a closing bracket may be thinned. -/
theorem exists_of_close {after : Gap} {excess : Option Gap} {close : Char} (hclose : ¬close < ' ')
    (h : Thinned (after.chars ++ (excessChars false excess ++ close :: cs)) ds) :
    ∃ (gap : Gap) (rest : List Char), ds = gap.chars ++ close :: rest ∧ Thinned cs rest := by
  obtain ⟨gap, hgap⟩ := exists_closing_gap after excess
  rw [← List.append_assoc, ← hgap] at h
  obtain ⟨gap, _, rfl, hgap⟩ := exists_of_gap h
  obtain ⟨rest, rfl, hrest⟩ := exists_of_cons hclose hgap
  exact ⟨gap, rest, rfl, hrest⟩

end Thinned

open Thinned

mutual

theorem Rendering.exists_of_thinned (t : Rendering) {cs ds : List Char}
    (h : Thinned (t.chars false ++ cs) ds) : ∃ (t' : Rendering) (rest : List Char),
      ds = t'.chars false ++ rest ∧ t'.node = t.node ∧ Thinned cs rest := by
  match t with
  | .null | .bool true | .bool false =>
    obtain ⟨rest, rfl, hrest⟩ := exists_of_solid (by simp [Rendering.chars]) h
    exact ⟨_, rest, rfl, rfl, hrest⟩
  | .number n =>
    obtain ⟨rest, rfl, hrest⟩ := exists_of_solid n.not_control h
    exact ⟨.number n, rest, rfl, rfl, hrest⟩
  | .text glyphs =>
    obtain ⟨rest, rfl, hrest⟩ := exists_of_quoted h
    exact ⟨.text glyphs, rest, rfl, rfl, hrest⟩
  | .emptyArray inside =>
    simp only [Rendering.chars, List.cons_append, List.append_assoc, List.nil_append] at h
    obtain ⟨_, rfl, hmark⟩ := exists_of_cons (by decide) h
    obtain ⟨inside, _, rfl, hinside⟩ := exists_of_gap hmark
    obtain ⟨rest, rfl, hrest⟩ := exists_of_cons (by decide) hinside
    exact ⟨.emptyArray inside, rest, by simp [Rendering.chars], rfl, hrest⟩
  | .array before value more =>
    simp only [Rendering.chars, List.cons_append, List.append_assoc] at h
    obtain ⟨_, rfl, hmark⟩ := exists_of_cons (by decide) h
    obtain ⟨before, _, rfl, hbefore⟩ := exists_of_gap hmark
    obtain ⟨value', _, rfl, hvalue, hafterValue⟩ := value.exists_of_thinned hbefore
    obtain ⟨more', rest, rfl, hmore, hrest⟩ := more.exists_of_thinned hafterValue
    refine ⟨.array before value' more', rest, by simp [Rendering.chars], ?_, hrest⟩
    rw [Rendering.node, Rendering.node, hvalue, hmore]
  | .emptyObject inside =>
    simp only [Rendering.chars, List.cons_append, List.append_assoc, List.nil_append] at h
    obtain ⟨_, rfl, hmark⟩ := exists_of_cons (by decide) h
    obtain ⟨inside, _, rfl, hinside⟩ := exists_of_gap hmark
    obtain ⟨rest, rfl, hrest⟩ := exists_of_cons (by decide) hinside
    exact ⟨.emptyObject inside, rest, by simp [Rendering.chars], rfl, hrest⟩
  | .object name value more =>
    simp only [Rendering.chars, List.cons_append, List.append_assoc] at h
    obtain ⟨_, rfl, hmark⟩ := exists_of_cons (by decide) h
    obtain ⟨name', _, rfl, hname, hbehind⟩ := exists_of_name hmark
    obtain ⟨value', _, rfl, hvalue, hafterValue⟩ := value.exists_of_thinned hbehind
    obtain ⟨more', rest, rfl, hmore, hrest⟩ := more.exists_of_thinned hafterValue
    refine ⟨.object name' value' more', rest, by simp [Rendering.chars], ?_, hrest⟩
    rw [Rendering.node, Rendering.node, hname, hvalue, hmore]

theorem MoreItems.exists_of_thinned (more : MoreItems) {cs ds : List Char}
    (h : Thinned (more.chars false ++ cs) ds) : ∃ (more' : MoreItems) (rest : List Char),
      ds = more'.chars false ++ rest ∧ more'.items = more.items ∧ Thinned cs rest := by
  match more with
  | .close after excess =>
    simp only [MoreItems.chars, List.append_assoc, List.singleton_append] at h
    obtain ⟨gap, rest, rfl, hrest⟩ := exists_of_close (by decide) h
    exact ⟨.close gap none, rest, by simp [MoreItems.chars, excessChars], rfl, hrest⟩
  | .next after before value more =>
    simp only [MoreItems.chars, List.cons_append, List.append_assoc] at h
    obtain ⟨after, _, rfl, hafter⟩ := exists_of_gap h
    obtain ⟨_, rfl, hmark⟩ := exists_of_cons (by decide) hafter
    obtain ⟨before, _, rfl, hbefore⟩ := exists_of_gap hmark
    obtain ⟨value', _, rfl, hvalue, hafterValue⟩ := value.exists_of_thinned hbefore
    obtain ⟨more', rest, rfl, hmore, hrest⟩ := more.exists_of_thinned hafterValue
    refine ⟨.next after before value' more', rest, by simp [MoreItems.chars], ?_, hrest⟩
    rw [MoreItems.items, MoreItems.items, hvalue, hmore]

theorem MoreMembers.exists_of_thinned (more : MoreMembers) {cs ds : List Char}
    (h : Thinned (more.chars false ++ cs) ds) : ∃ (more' : MoreMembers) (rest : List Char),
      ds = more'.chars false ++ rest ∧ more'.members = more.members ∧ Thinned cs rest := by
  match more with
  | .close after excess =>
    simp only [MoreMembers.chars, List.append_assoc, List.singleton_append] at h
    obtain ⟨gap, rest, rfl, hrest⟩ := exists_of_close (by decide) h
    exact ⟨.close gap none, rest, by simp [MoreMembers.chars, excessChars], rfl, hrest⟩
  | .next after name value more =>
    simp only [MoreMembers.chars, List.cons_append, List.append_assoc] at h
    obtain ⟨after, _, rfl, hafter⟩ := exists_of_gap h
    obtain ⟨_, rfl, hmark⟩ := exists_of_cons (by decide) hafter
    obtain ⟨name', _, rfl, hname, hbehind⟩ := exists_of_name hmark
    obtain ⟨value', _, rfl, hvalue, hafterValue⟩ := value.exists_of_thinned hbehind
    obtain ⟨more', rest, rfl, hmore, hrest⟩ := more.exists_of_thinned hafterValue
    refine ⟨.next after name' value' more', rest, by simp [MoreMembers.chars], ?_, hrest⟩
    rw [MoreMembers.members, MoreMembers.members, hname, hvalue, hmore]

end

theorem Document.exists_of_thinned (d : Document) {cs : List Char}
    (h : Thinned (d.chars false) cs) :
    ∃ d' : Document, cs = d'.chars false ∧ d'.value.node = d.value.node := by
  rw [Document.chars] at h
  obtain ⟨before, _, rfl, hbefore⟩ := exists_of_gap h
  obtain ⟨value, _, rfl, hvalue, hafterValue⟩ := d.value.exists_of_thinned hbefore
  rw [← List.append_nil d.after.chars] at hafterValue
  obtain ⟨after, _, rfl, hafter⟩ := exists_of_gap hafterValue
  cases hafter
  exact ⟨⟨before, value, after⟩, by simp [Document.chars], hvalue⟩

end ClusterBench.Json
