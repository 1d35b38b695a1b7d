import ClusterBench.Proofs.Computations
import ClusterBench.Proofs.Json.Rendering

/-!
# JSON documents as they may be written

A document is a rendering between gaps. The strict texts of documents are exactly the texts that the
scanner passes over as a whole.
-/

namespace ClusterBench.Json

namespace Node

theorem then_eq_ok {e f : Except Fault Unit} :
    (do e; f) = .ok () ↔ e = .ok () ∧ f = .ok () :=
  bind_eq_ok.trans ⟨fun ⟨_, h⟩ => h, fun h => ⟨(), h⟩⟩

theorem skipItems_item {node : Node} {items : Items} :
    skipItems (.item node items) = .ok () ↔ node.skip = .ok () ∧ skipItems items = .ok () :=
  then_eq_ok

theorem skipMembers_member {key value : Node} {members : Members} :
    skipMembers (.member key value members) = .ok () ↔
      key.skip = .ok () ∧ value.skip = .ok () ∧ skipMembers members = .ok () :=
  then_eq_ok.trans (and_congr_right fun _ => then_eq_ok)

end Node

open Node

/-- What is passed over with some fuel is a rendering. -/
structure Sound (fuel : ℕ) : Prop where
  value : ∀ ⦃cs : List Char⦄ ⦃node : Node⦄ ⦃rest : List Symbol⦄,
    scanValue fuel (cs.map some) = (node, rest) → node.skip = .ok () →
      ∃ (gap : Gap) (t : Rendering) (tail : List Char),
        cs = gap.chars ++ (t.chars false ++ tail) ∧ rest = tail.map some ∧ node = t.node
  firstItems : ∀ ⦃cs : List Char⦄ ⦃items : Items⦄ ⦃rest : List Symbol⦄,
    scanItems fuel true (cs.map some) = (items, rest) → skipItems items = .ok () →
      ∃ (t : Rendering) (tail : List Char),
        '[' :: cs = t.chars false ++ tail ∧ rest = tail.map some ∧ .array items = t.node
  moreItems : ∀ ⦃cs : List Char⦄ ⦃items : Items⦄ ⦃rest : List Symbol⦄,
    scanItems fuel false (cs.map some) = (items, rest) → skipItems items = .ok () →
      ∃ (more : MoreItems) (tail : List Char),
        cs = more.chars false ++ tail ∧ rest = tail.map some ∧ items = more.items
  firstMembers : ∀ ⦃cs : List Char⦄ ⦃members : Members⦄ ⦃rest : List Symbol⦄,
    scanMembers fuel true (cs.map some) = (members, rest) → skipMembers members = .ok () →
      ∃ (t : Rendering) (tail : List Char),
        '\x7b' :: cs = t.chars false ++ tail ∧ rest = tail.map some ∧ .object members = t.node
  moreMembers : ∀ ⦃cs : List Char⦄ ⦃members : Members⦄ ⦃rest : List Symbol⦄,
    scanMembers fuel false (cs.map some) = (members, rest) → skipMembers members = .ok () →
      ∃ (more : MoreMembers) (tail : List Char),
        cs = more.chars false ++ tail ∧ rest = tail.map some ∧ members = more.members

namespace Sound

variable {fuel : ℕ} {cs : List Char} {node : Node} {items : Items} {members : Members}
  {rest : List Symbol}

theorem value_succ (ih : Sound fuel) (h : scanValue (fuel + 1) (cs.map some) = (node, rest))
    (hskip : node.skip = .ok ()) : ∃ (gap : Gap) (t : Rendering) (tail : List Char),
      cs = gap.chars ++ (t.chars false ++ tail) ∧ rest = tail.map some ∧ node = t.node := by
  obtain ⟨gap, cs, rfl, hgap, hhead⟩ := exists_gap cs
  rw [scanValue, hgap] at h
  suffices htext : ∃ (t : Rendering) (tail : List Char),
      cs = t.chars false ++ tail ∧ rest = tail.map some ∧ node = t.node by
    obtain ⟨t, tail, rfl, hrest, hnode⟩ := htext
    exact ⟨gap, t, tail, rfl, hrest, hnode⟩
  cases cs with
  | nil =>
    cases h
    cases hskip
  | cons c cs =>
    rw [List.map_cons] at h
    split at h
    next heq => cases heq
    next heq =>
      cases heq
      obtain ⟨tail, rfl, hrest, rfl⟩ := append_of_scanWord h hskip
      exact ⟨.null, tail, rfl, hrest, rfl⟩
    next heq =>
      cases heq
      obtain ⟨tail, rfl, hrest, rfl⟩ := append_of_scanWord h hskip
      exact ⟨.bool true, tail, rfl, hrest, rfl⟩
    next heq =>
      cases heq
      obtain ⟨tail, rfl, hrest, rfl⟩ := append_of_scanWord h hskip
      exact ⟨.bool false, tail, rfl, hrest, rfl⟩
    next heq =>
      cases heq
      obtain ⟨glyphs, tail, rfl, hrest, rfl⟩ := quotes_of_scanText h hskip
      exact ⟨.text glyphs, tail, by simp [Rendering.chars, quotedChars], hrest, rfl⟩
    next heq =>
      cases heq
      cases h
      exact ih.firstItems rfl hskip
    next heq =>
      cases heq
      cases h
      exact ih.firstMembers rfl hskip
    next heq =>
      cases heq
      obtain ⟨n, tail, hnegative, rfl, hrest, rfl⟩ := exists_magnitude cs h hskip
      exact ⟨.number n, tail, by simp [Rendering.chars, NumberText.chars, signChars, hnegative],
        hrest, rfl⟩
    next heq =>
      cases heq
      split_ifs at h
      · obtain ⟨n, tail, hnegative, hcs, hrest, rfl⟩ := exists_magnitude (c :: cs) h hskip
        exact ⟨.number n, tail,
          by simp [Rendering.chars, NumberText.chars, signChars, hnegative, hcs], hrest, rfl⟩
      · cases h
        cases hskip

/-- An item and what follows it. -/
theorem item (ih : Sound fuel) (cs : List Char) (hskip : skipItems items = .ok ())
    (h : (Items.item (scanValue fuel (cs.map some)).1
        (scanItems fuel false (scanValue fuel (cs.map some)).2).1,
      (scanItems fuel false (scanValue fuel (cs.map some)).2).2) = (items, rest)) :
    ∃ (gap : Gap) (t : Rendering) (more : MoreItems) (tail : List Char),
      cs = gap.chars ++ (t.chars false ++ (more.chars false ++ tail)) ∧ rest = tail.map some ∧
        items = .item t.node more.items := by
  obtain ⟨rfl, rfl⟩ := Prod.mk.inj h
  obtain ⟨hvalue, hitems⟩ := skipItems_item.mp hskip
  obtain ⟨gap, t, tail, rfl, hrest, hnode⟩ := ih.value rfl hvalue
  rw [hrest] at hitems ⊢
  obtain ⟨more, tail, rfl, hrest, hmore⟩ := ih.moreItems rfl hitems
  exact ⟨gap, t, more, tail, rfl, hrest, by rw [hnode, hmore]⟩

theorem firstItems_succ (ih : Sound fuel)
    (h : scanItems (fuel + 1) true (cs.map some) = (items, rest))
    (hskip : skipItems items = .ok ()) : ∃ (t : Rendering) (tail : List Char),
      '[' :: cs = t.chars false ++ tail ∧ rest = tail.map some ∧ .array items = t.node := by
  obtain ⟨gap, cs, rfl, hgap, hhead⟩ := exists_gap cs
  rw [scanItems, hgap] at h
  cases cs with
  | nil =>
    cases h
    cases hskip
  | cons c cs =>
    rw [List.map_cons] at h
    split at h
    next heq => cases heq
    next heq =>
      cases heq
      cases h
      exact ⟨.emptyArray gap, cs, by simp [Rendering.chars], rfl, rfl⟩
    next heq =>
      cases heq
      obtain ⟨inner, t, more, tail, hcs, hrest, rfl⟩ := ih.item (c :: cs) hskip h
      exact ⟨.array (gap.append inner) t more, tail, by simp [Rendering.chars, hcs], hrest, rfl⟩

theorem moreItems_succ (ih : Sound fuel)
    (h : scanItems (fuel + 1) false (cs.map some) = (items, rest))
    (hskip : skipItems items = .ok ()) : ∃ (more : MoreItems) (tail : List Char),
      cs = more.chars false ++ tail ∧ rest = tail.map some ∧ items = more.items := by
  obtain ⟨after, cs, rfl, hafter, -⟩ := exists_gap cs
  rw [scanItems, hafter] at h
  cases cs with
  | nil =>
    cases h
    cases hskip
  | cons c cs =>
    rw [List.map_cons] at h
    split at h
    next heq => cases heq
    next heq =>
      cases heq
      cases h
      exact ⟨.close after none, cs, by simp [MoreItems.chars, excessChars], rfl, rfl⟩
    next heq =>
      cases heq
      obtain ⟨before, cs, rfl, hbefore, -⟩ := exists_gap cs
      rw [if_neg Bool.false_ne_true, hbefore] at h
      split_ifs at h with hcomma
      · cases hcomma
        split at h
        next =>
          cases h
          cases hskip
        next =>
          obtain ⟨inner, t, more, tail, hcs, hrest, rfl⟩ := ih.item cs hskip h
          exact ⟨.next after (before.append inner) t more, tail,
            by simp [MoreItems.chars, hcs], hrest, rfl⟩
      · cases h
        cases hskip

/-- A member and what follows it. -/
theorem member (ih : Sound fuel) {c : Char} (hclose : c ≠ '\x7d') (hblank : isAsciiBlank c = false)
    (h : scanMembers (fuel + 1) true ((c :: cs).map some) = (members, rest))
    (hskip : skipMembers members = .ok ()) :
    ∃ (name : NameText) (t : Rendering) (more : MoreMembers) (tail : List Char),
      c :: cs = name.chars ++ (t.chars false ++ (more.chars false ++ tail)) ∧
        rest = tail.map some ∧
          members = .member (.text (textOf name.key)) t.node more.members := by
  rw [List.map_cons, scanMembers, skipBlanks_cons hblank] at h
  split at h
  next heq => cases heq
  next heq =>
    cases heq
    exact absurd rfl hclose
  next heq =>
    cases heq
    rw [if_pos rfl] at h
    dsimp only at h
    split at h
    next heq => cases heq
    next heq =>
      cases heq
      rcases hkey : scanText ⟨[], none, false⟩ false (cs.map some) with ⟨key, behind⟩
      rw [hkey] at h
      dsimp only at h
      split at h
      next colon =>
        obtain ⟨rfl, rfl⟩ := Prod.mk.inj h
        obtain ⟨hkeyskip, hvalue, hmembers⟩ := skipMembers_member.mp hskip
        obtain ⟨glyphs, tail, rfl, rfl, rfl⟩ := quotes_of_scanText hkey hkeyskip
        obtain ⟨beforeColon, tail, rfl, hcolon, -⟩ := exists_gap tail
        rw [hcolon] at colon
        obtain ⟨_, tail, rfl, hchar, rfl⟩ := exists_of_map_some colon
        cases hchar
        obtain ⟨afterColon, t, tail, rfl, hrest, hnode⟩ := ih.value rfl hvalue
        rw [hrest] at hmembers ⊢
        obtain ⟨more, tail, rfl, hrest, hmore⟩ := ih.moreMembers rfl hmembers
        refine ⟨⟨.empty, glyphs, beforeColon, afterColon⟩, t, more, tail, ?_, hrest, ?_⟩
        · simp [NameText.chars, quotedChars, Gap.empty]
        · rw [hnode, hmore]
          rfl
      -- Without a colon there is no value.
      all_goals
        cases h
        obtain ⟨-, hvalue, -⟩ := skipMembers_member.mp hskip
        cases hvalue
    next =>
      cases h
      cases hskip

theorem firstMembers_succ (ih : Sound fuel)
    (h : scanMembers (fuel + 1) true (cs.map some) = (members, rest))
    (hskip : skipMembers members = .ok ()) : ∃ (t : Rendering) (tail : List Char),
      '\x7b' :: cs = t.chars false ++ tail ∧ rest = tail.map some ∧ .object members = t.node := by
  obtain ⟨gap, cs, rfl, -, hhead⟩ := exists_gap cs
  rw [List.map_append, scanMembers_gap] at h
  cases cs with
  | nil =>
    cases h
    cases hskip
  | cons c cs =>
    by_cases hclose : c = '\x7d'
    · subst hclose
      cases h
      exact ⟨.emptyObject gap, cs, by simp [Rendering.chars], rfl, rfl⟩
    · obtain ⟨name, t, more, tail, hcs, hrest, rfl⟩ := ih.member hclose (hhead c rfl) h hskip
      exact ⟨.object (name.behind gap) t more, tail, by simp [Rendering.chars, hcs], hrest, rfl⟩

theorem moreMembers_succ (ih : Sound fuel)
    (h : scanMembers (fuel + 1) false (cs.map some) = (members, rest))
    (hskip : skipMembers members = .ok ()) : ∃ (more : MoreMembers) (tail : List Char),
      cs = more.chars false ++ tail ∧ rest = tail.map some ∧ members = more.members := by
  obtain ⟨after, cs, rfl, hafter, -⟩ := exists_gap cs
  rw [scanMembers, hafter] at h
  cases cs with
  | nil =>
    cases h
    cases hskip
  | cons c cs =>
    rw [List.map_cons] at h
    split at h
    next heq => cases heq
    next heq =>
      cases heq
      cases h
      exact ⟨.close after none, cs, by simp [MoreMembers.chars, excessChars], rfl, rfl⟩
    next heq =>
      cases heq
      obtain ⟨before, cs, rfl, hbefore, hhead⟩ := exists_gap cs
      rw [if_neg Bool.false_ne_true, hbefore] at h
      split_ifs at h with hcomma
      · cases hcomma
        cases cs with
        | nil =>
          cases h
          cases hskip
        | cons c cs =>
          have hblank : isAsciiBlank c = false := hhead c rfl
          by_cases hclose : c = '\x7d'
          · subst hclose
            cases h
            cases hskip
          have hfirst : scanMembers (fuel + 1) true ((c :: cs).map some) = (members, rest) := by
            rw [← h, List.map_cons, scanMembers, skipBlanks_cons hblank]
            simp [hclose]
          obtain ⟨name, t, more, tail, hcs, hrest, rfl⟩ := ih.member hclose hblank hfirst hskip
          exact ⟨.next after (name.behind before) t more, tail,
            by simp [MoreMembers.chars, hcs], hrest, rfl⟩
      · cases h
        cases hskip

end Sound

theorem sound (fuel : ℕ) : Sound fuel := by
  induction fuel with
  | zero => constructor <;> (intro cs result rest h hskip; cases h; cases hskip)
  | succ fuel ih =>
    exact ⟨fun _ _ _ => ih.value_succ, fun _ _ _ => ih.firstItems_succ,
      fun _ _ _ => ih.moreItems_succ, fun _ _ _ => ih.firstMembers_succ,
      fun _ _ _ => ih.moreMembers_succ⟩

mutual

theorem Rendering.skip_node : (t : Rendering) → t.node.skip = .ok ()
  | .null | .bool _ | .number _ | .text _ | .emptyArray _ | .emptyObject _ => by
    rw [Rendering.node]
    rfl
  | .array _ value more => by
    rw [Rendering.node]
    exact skipItems_item.mpr ⟨value.skip_node, more.skip_items⟩
  | .object name value more => by
    rw [Rendering.node]
    exact skipMembers_member.mpr ⟨rfl, value.skip_node, more.skip_members⟩

theorem MoreItems.skip_items : (more : MoreItems) → skipItems more.items = .ok ()
  | .close _ _ => by
    rw [MoreItems.items]
    rfl
  | .next _ _ value more => by
    rw [MoreItems.items]
    exact skipItems_item.mpr ⟨value.skip_node, more.skip_items⟩

theorem MoreMembers.skip_members : (more : MoreMembers) → skipMembers more.members = .ok ()
  | .close _ _ => by
    rw [MoreMembers.members]
    rfl
  | .next _ name value more => by
    rw [MoreMembers.members]
    exact skipMembers_member.mpr ⟨rfl, value.skip_node, more.skip_members⟩

end

structure Document where
  before : Gap
  value : Rendering
  after : Gap

def Document.chars (loose : Bool) (d : Document) : List Char :=
  d.before.chars ++ (d.value.chars loose ++ d.after.chars)

theorem Gap.skipBlanks_chars (gap : Gap) : skipBlanks (gap.chars.map some) = [] := by
  have h := skipBlanks_gap gap []
  rwa [List.append_nil] at h

theorem Gap.ends (gap : Gap) : Ends (gap.chars.map some) := by
  obtain ⟨chars, hblank⟩ := gap
  cases chars with
  | nil => exact .inl rfl
  | cons blank chars => exact .inr ⟨blank, _, rfl, .inl (hblank blank List.mem_cons_self)⟩

theorem Gap.eq_of_skipBlanks {cs : List Char} (h : skipBlanks (cs.map some) = []) :
    ∃ gap : Gap, cs = gap.chars := by
  obtain ⟨gap, rest, rfl, hgap, -⟩ := exists_gap cs
  rw [h] at hgap
  exact ⟨gap, by rw [List.map_eq_nil_iff.mp hgap.symm, List.append_nil]⟩

theorem scan_document (d : Document) :
    scan ((d.chars false).map some) = (d.value.node, d.after.chars.map some) := by
  rw [scan, Document.chars, List.map_append, scanValue_gap, List.map_append]
  apply d.value.scanValue_chars d.after.ends
  simp only [List.length_append, List.length_map]
  omega

/-- A text that is passed over as a whole is a document. -/
theorem exists_document {cs : List Char} {node : Node} {rest : List Symbol}
    (h : scan (cs.map some) = (node, rest)) (hskip : node.skip = .ok ())
    (hrest : skipBlanks rest = []) : ∃ d : Document, cs = d.chars false ∧ node = d.value.node := by
  obtain ⟨gap, t, tail, rfl, rfl, hnode⟩ := (sound _).value h hskip
  obtain ⟨after, rfl⟩ := Gap.eq_of_skipBlanks hrest
  exact ⟨⟨gap, t, after⟩, rfl, hnode⟩

/-- The texts that are passed over as a whole are the strict texts of documents. -/
theorem exists_document_iff {cs : List Char} : (∃ d : Document, cs = d.chars false) ↔
    (scan (cs.map some)).1.skip = .ok () ∧ skipBlanks (scan (cs.map some)).2 = [] := by
  constructor
  · rintro ⟨d, rfl⟩
    rw [scan_document]
    exact ⟨d.value.skip_node, d.after.skipBlanks_chars⟩
  · rintro ⟨hskip, hrest⟩
    obtain ⟨d, hcs, -⟩ := exists_document rfl hskip hrest
    exact ⟨d, hcs⟩

end ClusterBench.Json
