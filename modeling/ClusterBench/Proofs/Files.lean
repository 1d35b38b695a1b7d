import Mathlib
import ClusterBench.Files
import ClusterBench.Proofs.Computations

/-!
# Files in a tree

Replacing a file leaves all other names and the ways to them as they are. So what is appended to a
file stands behind its old content, and a file that could be opened once can be opened again. In a
tree to which nothing but compressed files are added, texts are read as before.
-/

namespace ClusterBench.Files

variable {files : Files} {location other : Location} {entry : FileEntry}

theorem entry_put_self (h : files.entry? location ≠ some .directory) (entry : FileEntry) :
    entry? (files.put location entry) location = some entry := by
  have hroot : ¬ (location = [] ∨ location = ["/"] ∨ location = [".."]) := by
    intro hroot
    exact h (if_pos hroot)
  exact (if_neg hroot).trans List.lookup_cons_self

theorem lookup_filter_ne {α β : Type} [BEq α] [LawfulBEq α] {a b : α} (h : a ≠ b)
    (entries : List (α × β)) : (entries.filter (·.1 != b)).lookup a = entries.lookup a := by
  induction entries with
  | nil => rfl
  | cons e entries ih =>
    obtain ⟨c, value⟩ := e
    by_cases hc : c = b
    · have hne : (a == c) = false := by
        rw [beq_eq_false_iff_ne, hc]
        exact h
      rw [List.filter_cons, if_neg (by simp [hc]), ih, List.lookup_cons, hne]
    · rw [List.filter_cons, if_pos (by simp [hc]), List.lookup_cons, List.lookup_cons, ih]

theorem entry_put_of_ne (h : other ≠ location) :
    entry? (files.put location entry) other = files.entry? other := by
  have hne : (other == location) = false := beq_eq_false_iff_ne.mpr h
  unfold entry? put
  rw [List.lookup_cons, hne, lookup_filter_ne h]

/-- A way down leads only through directories, so it does not see a file. -/
theorem follow_put {start : Location} {names : List String}
    (h : files.entry? location ≠ some .directory) {found : Location}
    (hfound : files.follow start names = .ok found) :
    (files.put location entry).follow start names = .ok found := by
  induction names generalizing start with
  | nil => exact hfound
  | cons name names ih =>
    cases hentry : files.entry? start with
    | none => simp [follow, hentry] at hfound
    | some e =>
      cases e with
      | directory =>
        have hne : start ≠ location := by
          rintro rfl
          exact h hentry
        rw [follow, hentry] at hfound
        rw [follow, entry_put_of_ne hne, hentry]
        dsimp only at hfound ⊢
        split_ifs at hfound ⊢
        · exact ih hfound
        · exact ih hfound
        · exact ih hfound
      | plain bytes => simp [follow, hentry] at hfound
      | packed bytes => simp [follow, hentry] at hfound

def content (files : Files) (path : String) : List UInt8 :=
  match files.open? path with
  | .ok (.plain bytes) => bytes
  | _ => []

theorem resolve_eq_ok {path : String} : files.resolve path = .ok location ↔
    path.isEmpty = false ∧ files.follow [] (namesOf path).1 = .ok location ∧
      ((namesOf path).2 → files.entry? location = none ∨
        files.entry? location = some .directory) := by
  unfold resolve
  cases hempty : path.isEmpty with
  | true => simp [bind, Except.bind]
  | false =>
    cases hfollow : files.follow [] (namesOf path).1 with
    | error fault => simp [hfollow, bind, Except.bind]
    | ok found =>
      simp only [Bool.false_eq_true, if_false, hfollow, bind, Except.bind, pure, Except.pure,
        Except.ok.injEq, true_and]
      by_cases heq : found = location
      · subst heq
        rcases files.entry? found with _ | (_ | bytes | bytes) <;>
          cases (namesOf path).2 <;> simp
      · rcases files.entry? found with _ | (_ | bytes | bytes) <;>
          cases (namesOf path).2 <;> simp [heq]

/-- Where a file can be written there is no directory, and the path does not ask for one. -/
theorem writable_eq_ok {path : String} (h : files.writable path = .ok location) :
    files.resolve path = .ok location ∧ files.entry? location ≠ some .directory ∧
      (namesOf path).2 = false := by
  unfold writable at h
  cases hresolve : files.resolve path with
  | error fault => simp [hresolve, bind, Except.bind] at h
  | ok found =>
    have hdir := (resolve_eq_ok.mp hresolve).2.2
    simp only [hresolve, bind, Except.bind, pure, Except.pure] at h
    rcases hentry : files.entry? found with _ | (_ | bytes | bytes) <;>
      rcases hparent : files.entry? found.tail with _ | (_ | bytes | bytes) <;>
      cases hflag : (namesOf path).2 <;>
      simp_all

theorem resolve_put {path : String} (h : files.writable path = .ok location)
    (entry : FileEntry) : (files.put location entry).resolve path = .ok location := by
  obtain ⟨hresolve, hentry, hflag⟩ := writable_eq_ok h
  obtain ⟨hempty, hfollow, -⟩ := resolve_eq_ok.mp hresolve
  exact resolve_eq_ok.mpr ⟨hempty, follow_put hentry hfollow, by simp [hflag]⟩

/-- A file that has been written can be written again, and holds what was written. -/
theorem put_of_writable {path : String} (h : files.writable path = .ok location)
    (bytes : List UInt8) :
    (files.put location (.plain bytes)).writable path = .ok location ∧
      (files.put location (.plain bytes)).content path = bytes := by
  have hput := entry_put_self (writable_eq_ok h).2.1 (.plain bytes)
  have hagain := resolve_put h (.plain bytes)
  constructor
  · rw [writable, hagain]
    simp [hput, bind, Except.bind, pure, Except.pure]
  · rw [content, open?, hagain]
    simp [hput, bind, Except.bind, pure, Except.pure]

theorem append_of_writable {path : String} (h : files.writable path = .ok location)
    (bytes : List UInt8) : files.append path bytes =
      .ok (files.put location (.plain (files.content path ++ bytes))) := by
  obtain ⟨hresolve, hentry, -⟩ := writable_eq_ok h
  rw [append, h, content, open?, hresolve]
  simp only [bind, Except.bind, pure, Except.pure]
  rcases hfound : files.entry? location with _ | (_ | old | old)
  · rfl
  · exact absurd hfound hentry
  · rfl
  · rfl

/-- Appending puts the bytes behind the content, and it can be repeated. -/
theorem append_eq_ok {path : String} {bytes : List UInt8} {files' : Files}
    (h : files.append path bytes = .ok files') :
    files'.content path = files.content path ++ bytes ∧
      ∀ more, ∃ files'', files'.append path more = .ok files'' := by
  cases hwritable : files.writable path with
  | error fault => simp [append, hwritable, bind, Except.bind] at h
  | ok location =>
    rw [append_of_writable hwritable, Except.ok.injEq] at h
    rw [← h]
    obtain ⟨hagain, hcontent⟩ := put_of_writable hwritable (files.content path ++ bytes)
    exact ⟨hcontent, fun more => ⟨_, append_of_writable hagain more⟩⟩

theorem open?_eq_ok {path : String} {entry : FileEntry} : files.open? path = .ok entry ↔
    ∃ location, files.resolve path = .ok location ∧ files.entry? location = some entry := by
  unfold open?
  cases hresolve : files.resolve path with
  | error fault => simp [bind, Except.bind]
  | ok location =>
    cases hentry : files.entry? location with
    | none => simp [hentry, bind, Except.bind]
    | some found => simp [hentry, bind, Except.bind, pure, Except.pure]

theorem contains_iff {path : String} : files.contains path ↔
    ∃ location, files.resolve path = .ok location ∧ files.entry? location ≠ none := by
  unfold contains
  cases files.resolve path with
  | error fault => simp
  | ok location => simp [Option.isSome_iff_ne_none]

theorem contains_of_open? {path : String} (h : files.open? path = .ok entry) :
    files.contains path := by
  obtain ⟨location, hresolve, hentry⟩ := open?_eq_ok.mp h
  exact contains_iff.mpr ⟨location, hresolve, by rw [hentry]; nofun⟩

/-- A file that has been written can be opened. -/
theorem write_eq_ok {path : String} {files' : Files} (h : files.write path entry = .ok files') :
    ∃ location, files.resolve path = .ok location ∧ files' = files.put location entry ∧
      files'.open? path = .ok entry := by
  unfold write at h
  cases hwritable : files.writable path with
  | error fault => simp [hwritable, bind, Except.bind] at h
  | ok location =>
    rw [hwritable] at h
    cases h
    obtain ⟨hresolve, hentry, -⟩ := writable_eq_ok hwritable
    exact ⟨location, hresolve, rfl, open?_eq_ok.mpr
      ⟨location, resolve_put hwritable entry, entry_put_self hentry entry⟩⟩

/-- Nothing has changed but that compressed files stand where nothing was before. -/
def Extends (files later : Files) : Prop :=
  ∀ location, later.entry? location = files.entry? location ∨
    files.entry? location = none ∧ ∃ bytes, later.entry? location = some (.packed bytes)

namespace Extends

variable {later last : Files}

theorem refl (files : Files) : files.Extends files := fun _ => Or.inl rfl

theorem trans (h : files.Extends later) (h' : later.Extends last) : files.Extends last := by
  intro location
  rcases h' location with hsame | ⟨hnone, bytes, hbytes⟩
  · rw [hsame]
    exact h location
  · rcases h location with hsame | ⟨-, bytes', hbytes'⟩
    · exact Or.inr ⟨hsame.symm.trans hnone, bytes, hbytes⟩
    · rw [hbytes'] at hnone
      cases hnone

theorem entry_of_some (h : files.Extends later) (hentry : files.entry? location = some entry) :
    later.entry? location = some entry := by
  rcases h location with hsame | ⟨hnone, -⟩
  · rw [hsame, hentry]
  · rw [hnone] at hentry
    cases hentry

theorem entry_of_none (h : files.Extends later) (hentry : later.entry? location = none) :
    files.entry? location = none := by
  rcases h location with hsame | ⟨hnone, -⟩
  · rw [← hsame, hentry]
  · exact hnone

/-- What is not compressed was there before. -/
theorem entry_iff (h : files.Extends later) (hentry : ∀ bytes, entry ≠ .packed bytes) :
    later.entry? location = some entry ↔ files.entry? location = some entry := by
  refine ⟨fun hlater => ?_, h.entry_of_some⟩
  rcases h location with hsame | ⟨-, bytes, hbytes⟩
  · rw [← hsame, hlater]
  · rw [hbytes] at hlater
    exact absurd (Option.some.inj hlater).symm (hentry bytes)

theorem follow_iff (h : files.Extends later) {start found : Location} {names : List String} :
    later.follow start names = .ok found ↔ files.follow start names = .ok found := by
  have hdirectory (l : Location) : later.entry? l = some .directory ↔
      files.entry? l = some .directory := h.entry_iff (by simp)
  induction names generalizing start with
  | nil => rfl
  | cons name names ih =>
    have hnot (tree : Files) (hne : tree.entry? start ≠ some .directory) :
        tree.follow start (name :: names) ≠ .ok found := by
      rw [follow]
      split <;> simp_all
    by_cases hstart : files.entry? start = some .directory
    · rw [follow, follow, (hdirectory start).mpr hstart, hstart]
      dsimp only
      split_ifs
      · exact ih
      · exact ih
      · exact ih
    · exact iff_of_false (hnot later fun hlater => hstart ((hdirectory start).mp hlater))
        (hnot files hstart)

/-- A path led to the same place before. -/
theorem resolve_of_later (h : files.Extends later) {path : String}
    (hlater : later.resolve path = .ok location) : files.resolve path = .ok location := by
  obtain ⟨hempty, hfollow, hdirectory⟩ := resolve_eq_ok.mp hlater
  refine resolve_eq_ok.mpr ⟨hempty, h.follow_iff.mp hfollow, fun hflag => ?_⟩
  rcases hdirectory hflag with hnone | hdirectory
  · exact Or.inl (h.entry_of_none hnone)
  · exact Or.inr ((h.entry_iff (by simp)).mp hdirectory)

theorem open?_later (h : files.Extends later) {path : String}
    (hopen : files.open? path = .ok entry) : later.open? path = .ok entry := by
  obtain ⟨location, hresolve, hentry⟩ := open?_eq_ok.mp hopen
  obtain ⟨hempty, hfollow, hdirectory⟩ := resolve_eq_ok.mp hresolve
  have hlater := h.entry_of_some hentry
  have hresolve' : later.resolve path = .ok location := by
    refine resolve_eq_ok.mpr ⟨hempty, h.follow_iff.mpr hfollow, ?_⟩
    rw [hlater, ← hentry]
    exact hdirectory
  exact open?_eq_ok.mpr ⟨location, hresolve', hlater⟩

/-- A text that can be read could be read before. -/
theorem readText_of_later (h : files.Extends later) {path text : String}
    (hread : later.readText path = .ok text) : files.readText path = .ok text := by
  unfold readText at hread ⊢
  obtain ⟨entry, hopen, hread⟩ := bind_eq_ok.mp hread
  obtain ⟨location, hresolve, hentry⟩ := open?_eq_ok.mp hopen
  have hplain : ∀ bytes, entry ≠ .packed bytes := by
    rintro bytes rfl
    cases hread
  have hbefore : files.open? path = .ok entry :=
    open?_eq_ok.mpr ⟨location, h.resolve_of_later hresolve, (h.entry_iff hplain).mp hentry⟩
  exact bind_eq_ok.mpr ⟨entry, hbefore, hread⟩

theorem put (hentry : files.entry? location = none) (bytes : List UInt8) :
    files.Extends (files.put location (.packed bytes)) := by
  intro other
  by_cases hother : other = location
  · rw [hother]
    exact Or.inr ⟨hentry, bytes, entry_put_self (by simp [hentry]) _⟩
  · exact Or.inl (entry_put_of_ne hother)

end Extends

end ClusterBench.Files
