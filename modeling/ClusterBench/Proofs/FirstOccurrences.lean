import Mathlib

/-!
# First occurrences

Hosts and tests are collected in the order in which they come up, each once: a loop over a list
keeps what it has not kept before. What it keeps is what occurs for the first time, where things
count as the same when they have the same key.
-/

namespace ClusterBench

variable {α β κ : Type} [DecidableEq κ] {key : α → κ} {as : List α} {a : α}

/-- What has a key that nothing in front of it has, in order. -/
def firstOccurrences (key : α → κ) (as : List α) : List α :=
  (as.zipIdx.filter fun indexed => key indexed.1 ∉ (as.take indexed.2).map key).map Prod.fst

theorem firstOccurrences_concat (key : α → κ) (as : List α) (a : α) :
    firstOccurrences key (as ++ [a]) =
      if key a ∈ as.map key then firstOccurrences key as else firstOccurrences key as ++ [a] := by
  have hfront : as.zipIdx.filter (fun indexed =>
        key indexed.1 ∉ ((as ++ [a]).take indexed.2).map key) =
      as.zipIdx.filter fun indexed => key indexed.1 ∉ (as.take indexed.2).map key := by
    apply List.filter_congr
    intro indexed hindexed
    have hindex : indexed.2 ≤ as.length := (List.snd_lt_of_mem_zipIdx hindexed).le
    rw [List.take_append_of_le_length hindex]
  unfold firstOccurrences
  rw [List.zipIdx_append, List.filter_append, hfront, Nat.zero_add, List.zipIdx_singleton,
    List.filter_singleton, List.take_left, List.map_append]
  by_cases hmem : key a ∈ as.map key <;> simp [hmem]

theorem firstOccurrences_sublist (key : α → κ) (as : List α) :
    (firstOccurrences key as).Sublist as := by
  have hsublist := (List.filter_sublist (l := as.zipIdx)
    (p := fun indexed => key indexed.1 ∉ (as.take indexed.2).map key)).map Prod.fst
  rwa [List.zipIdx_map_fst] at hsublist

theorem mem_of_mem_firstOccurrences (h : a ∈ firstOccurrences key as) : a ∈ as :=
  (firstOccurrences_sublist key as).subset h

/-- Every key stays. -/
theorem mem_map_firstOccurrences {k : κ} :
    k ∈ (firstOccurrences key as).map key ↔ k ∈ as.map key := by
  induction as using List.reverseRecOn with
  | nil => rfl
  | append_singleton as a ih =>
    rw [firstOccurrences_concat, List.map_append, List.mem_append]
    split_ifs with hmem
    · rw [ih, List.map_singleton, List.mem_singleton]
      exact ⟨Or.inl, fun hk => hk.elim id fun heq => heq ▸ hmem⟩
    · rw [List.map_append, List.mem_append, ih]

/-- No key occurs again. -/
theorem nodup_map_firstOccurrences (key : α → κ) (as : List α) :
    ((firstOccurrences key as).map key).Nodup := by
  induction as using List.reverseRecOn with
  | nil => exact List.nodup_nil
  | append_singleton as a ih =>
    rw [firstOccurrences_concat]
    split_ifs with hmem
    · exact ih
    · rw [List.map_append, List.map_singleton, List.nodup_append_comm, List.singleton_append,
        List.nodup_cons, mem_map_firstOccurrences]
      exact ⟨hmem, ih⟩

theorem mem_firstOccurrences_id {k : κ} {ks : List κ} : k ∈ firstOccurrences id ks ↔ k ∈ ks := by
  have hkeys : k ∈ (firstOccurrences id ks).map id ↔ k ∈ ks.map id := mem_map_firstOccurrences
  rwa [List.map_id, List.map_id] at hkeys

theorem nodup_firstOccurrences_id (ks : List κ) : (firstOccurrences id ks).Nodup := by
  have hkeys := nodup_map_firstOccurrences id ks
  rwa [List.map_id] at hkeys

/-- First occurrences of what is made of a list. -/
theorem firstOccurrences_map (key : β → κ) (f : α → β) (as : List α) :
    firstOccurrences key (as.map f) = (firstOccurrences (fun a => key (f a)) as).map f := by
  induction as using List.reverseRecOn with
  | nil => rfl
  | append_singleton as a ih =>
    have hkeys : (as.map f).map key = as.map fun a => key (f a) := List.map_map
    rw [List.map_append, List.map_singleton, firstOccurrences_concat, firstOccurrences_concat, ih,
      hkeys]
    split_ifs
    · rfl
    · rw [List.map_append, List.map_singleton]

/-- A loop that keeps what is not the same as something it has kept. -/
theorem foldl_eq_firstOccurrences {same : α → α → Bool}
    (hsame : ∀ a b, same a b = true ↔ key a = key b) (as : List α) :
    as.foldl (fun kept a => if kept.any (same · a) then kept else kept ++ [a]) [] =
      firstOccurrences key as := by
  induction as using List.reverseRecOn with
  | nil => rfl
  | append_singleton as a ih =>
    have hany : (firstOccurrences key as).any (same · a) = true ↔ key a ∈ as.map key := by
      rw [← mem_map_firstOccurrences, List.any_eq_true, List.mem_map]
      simp only [hsame]
    rw [List.foldl_concat, ih, firstOccurrences_concat, if_congr hany rfl rfl]

end ClusterBench
