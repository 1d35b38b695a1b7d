import ClusterBench.Text.Blank
import Mathlib.Data.List.Basic

/-!
# Parts and words of a text

A text splits at the members of a class of characters into parts that hold none of them. The words
of a text are its parts between blanks as far as they are not empty, so they do not depend on the
blanks that separate them.
-/

namespace ClusterBench

section Parts

variable {α : Type}

theorem splitWhere_eq_splitOnP (p : α → Bool) (as : List α) :
    splitWhere p as = as.splitOnP p := by
  induction as with
  | nil => rfl
  | cons a as ih =>
    rw [splitWhere, ih, List.splitOnP_cons_eq_if_modifyHead]
    split_ifs
    · rfl
    · obtain ⟨part, parts, h⟩ := List.exists_cons_of_ne_nil (List.splitOnP_ne_nil p as)
      rw [h]
      rfl

theorem splitWhere_beq (c : Char) (cs : List Char) : splitWhere (· == c) cs = cs.splitOn c := by
  rw [splitWhere_eq_splitOnP, List.splitOn_eq_splitOnP]

theorem splitWhere_ne_nil (p : α → Bool) (as : List α) : splitWhere p as ≠ [] := by
  rw [splitWhere_eq_splitOnP]
  exact List.splitOnP_ne_nil p as

variable {p : α → Bool} {as part : List α}

theorem splitWhere_part (h : ∀ a ∈ part, p a = false) : splitWhere p part = [part] := by
  rw [splitWhere_eq_splitOnP, List.splitOnP_eq_singleton h]

theorem splitWhere_part_append (h : ∀ a ∈ part, p a = false) {a : α} (ha : p a = true)
    (rest : List α) : splitWhere p (part ++ a :: rest) = part :: splitWhere p rest := by
  rw [splitWhere_eq_splitOnP, splitWhere_eq_splitOnP,
    List.splitOnP_append_cons_of_forall_mem h a ha]

/-- Either there is one part, or the first part ends at the first member of the class. -/
theorem part_cases (p : α → Bool) (as : List α) : (∀ a ∈ as, p a = false) ∨
    ∃ part a rest, as = part ++ a :: rest ∧ (∀ b ∈ part, p b = false) ∧ p a = true := by
  cases hfind : as.find? p with
  | none => exact Or.inl (by simpa using hfind)
  | some a =>
    obtain ⟨ha, part, rest, has, hpart⟩ := List.find?_eq_some_iff_append.mp hfind
    exact Or.inr ⟨part, a, rest, has, by simpa using hpart, ha⟩

/-- Induction on the parts of a list. -/
theorem parts_induction {motive : List α → Prop} (p : α → Bool)
    (last : ∀ part, (∀ a ∈ part, p a = false) → motive part)
    (more : ∀ part a rest, (∀ b ∈ part, p b = false) → p a = true → motive rest →
      motive (part ++ a :: rest)) (as : List α) : motive as := by
  rcases part_cases p as with hpart | ⟨part, a, rest, has, hpart, ha⟩
  · exact last as hpart
  · have hlt : rest.length < as.length := by
      rw [has, List.length_append, List.length_cons]
      omega
    rw [has]
    exact more part a rest hpart ha (parts_induction p last more rest)
termination_by as.length

/-- Two parts come from one member of the class. -/
theorem splitWhere_eq_pair_iff {left right : List α} : splitWhere p as = [left, right] ↔
    ∃ a, as = left ++ a :: right ∧ p a = true ∧ (∀ b ∈ left, p b = false) ∧
      ∀ b ∈ right, p b = false := by
  constructor
  · intro h
    rcases part_cases p as with hpart | ⟨part, a, rest, rfl, hpart, ha⟩
    · rw [splitWhere_part hpart] at h
      cases h
    · rw [splitWhere_part_append hpart ha, List.cons.injEq] at h
      obtain ⟨rfl, h⟩ := h
      rcases part_cases p rest with hrest | ⟨next, b, rest, rfl, hnext, hb⟩
      · rw [splitWhere_part hrest] at h
        cases h
        exact ⟨a, rfl, ha, hpart, hrest⟩
      · rw [splitWhere_part_append hnext hb, List.cons.injEq] at h
        exact absurd h.2 (splitWhere_ne_nil p rest)
  · rintro ⟨a, rfl, ha, hleft, hright⟩
    rw [splitWhere_part_append hleft ha, splitWhere_part hright]

end Parts

theorem forall_beq_eq_false_iff {c : Char} {cs : List Char} :
    (∀ d ∈ cs, (d == c) = false) ↔ c ∉ cs := by
  simp only [beq_eq_false_iff_ne]
  exact ⟨fun h hmem => h c hmem rfl, fun h d hd => ne_of_mem_of_not_mem hd h⟩

structure IsWord (word : List Char) : Prop where
  ne_nil : word ≠ []
  noBlank : ∀ c ∈ word, isBlank c = false

/-- A text of these words, with blanks around them and at least one blank between two of them. -/
inductive Spaced : List (List Char) → List Char → Prop
  | nil : Spaced [] []
  | blank {words : List (List Char)} {c : Char} {cs : List Char} (hc : isBlank c = true) :
      Spaced words cs → Spaced words (c :: cs)
  | last {word : List Char} (hword : IsWord word) : Spaced [word] word
  | word {word : List Char} {words : List (List Char)} {c : Char} {cs : List Char}
      (hword : IsWord word) (hc : isBlank c = true) :
      Spaced words cs → Spaced (word :: words) (word ++ c :: cs)

theorem wordsOf_word {word : List Char} (h : IsWord word) : wordsOf word = [word] := by
  rw [wordsOf, splitWhere_part h.noBlank]
  exact List.filter_cons_of_pos (by simpa using h.ne_nil)

theorem wordsOf_part_append {part : List Char} (h : ∀ c ∈ part, isBlank c = false) {c : Char}
    (hc : isBlank c = true) (cs : List Char) :
    wordsOf (part ++ c :: cs) = if part = [] then wordsOf cs else part :: wordsOf cs := by
  rw [wordsOf, splitWhere_part_append h hc]
  cases part <;> rfl

theorem spaced_wordsOf (cs : List Char) : Spaced (wordsOf cs) cs := by
  induction cs using parts_induction isBlank with
  | last part hpart =>
    by_cases hnil : part = []
    · subst hnil
      exact .nil
    · have hword : IsWord part := ⟨hnil, hpart⟩
      rw [wordsOf_word hword]
      exact .last hword
  | more part c rest hpart hc ih =>
    rw [wordsOf_part_append hpart hc]
    split_ifs with hnil
    · subst hnil
      exact ih.blank hc
    · exact ih.word ⟨hnil, hpart⟩ hc

theorem Spaced.wordsOf_eq {words : List (List Char)} {cs : List Char} (h : Spaced words cs) :
    wordsOf cs = words := by
  induction h with
  | nil => rfl
  | blank hc _ ih => exact (wordsOf_part_append (List.forall_mem_nil _) hc _).trans ih
  | last hword => exact wordsOf_word hword
  | word hword hc _ ih => rw [wordsOf_part_append hword.noBlank hc, if_neg hword.ne_nil, ih]

end ClusterBench
