import ClusterBench.Proofs.Json.Documents

/-!
# What decoders read from documents

A decoder that reads a record looks at all of it: what it does not read it skips. So it accepts
documents only, and what it makes of one depends on its value and not on its gaps.
-/

namespace ClusterBench.Json.Decoder

open Node

variable {α σ : Type}

/-- Whatever is read is JSON throughout. -/
def Thorough (decode : Decoder α) : Prop :=
  ∀ ⦃origin node a⦄, decode origin node = .ok a → node.skip = .ok ()

def RecordField.Thorough (field : RecordField σ) : Prop :=
  ∀ ⦃origin node record stored⦄, field.store origin node record = .ok stored →
    node.skip = .ok ()

theorem thorough_real : Thorough real := by
  intro origin node x h
  cases node with
  | number n => rfl
  | _ => cases h

theorem skip_of_readText {node : Node} {text : String} (h : node.readText = .ok text) :
    node.skip = .ok () := by
  cases node with
  | text value => rfl
  | _ => cases h

theorem thorough_field {decode : Decoder α} (h : Thorough decode) (name : String)
    (absence : Absence) (put : α → σ → σ) : (field name absence decode put).Thorough := by
  intro origin node record stored hstore
  obtain ⟨a, hread, -⟩ := bind_eq_ok.mp hstore
  exact h hread

section Records

variable {origin : Origin} {fields : List (RecordField σ)} {record : σ}

theorem skipItems_of_recordOfItems {items : Items} {stored : σ}
    (hfields : ∀ field ∈ fields, field.Thorough)
    (h : recordOfItems origin fields items record = .ok stored) : skipItems items = .ok () := by
  fun_induction recordOfItems origin fields items record
  case case4 ih =>
    rfl
  case case6 field fields node rest record ih =>
    rw [List.forall_mem_cons] at hfields
    obtain ⟨next, hstore, hrest⟩ := bind_eq_ok.mp h
    exact skipItems_item.mpr ⟨hfields.1 hstore, ih next hfields.2 hrest⟩
  -- In the other cases there is no item left, or a fault.
  all_goals first | rfl | cases h

theorem skipMembers_of_recordOfMembers {members : Members} {seen : List String}
    {stored : List String × σ} (hfields : ∀ field ∈ fields, field.Thorough)
    (h : recordOfMembers origin fields members seen record = .ok stored) :
    skipMembers members = .ok () := by
  fun_induction recordOfMembers origin fields members seen record
  case case4 key value rest seen record ihstored ihskipped =>
    obtain ⟨name, hkey, h⟩ := bind_eq_ok.mp h
    apply skipMembers_member.mpr
    refine ⟨skip_of_readText hkey, ?_⟩
    split at h
    next field hfind =>
      split_ifs at h
      obtain ⟨next, hstore, hrest⟩ := bind_eq_ok.mp h
      exact ⟨hfields field (List.mem_of_find?_eq_some hfind) hstore, ihstored name next hrest⟩
    next =>
      obtain ⟨_, hskip, hrest⟩ := bind_eq_ok.mp h
      exact ⟨hskip, ihskipped hrest⟩
  all_goals first | rfl | cases h

end Records

theorem thorough_record {fields : List (RecordField σ)} (start : σ)
    (hfields : ∀ field ∈ fields, field.Thorough) : Thorough (record fields start) := by
  intro origin node stored h
  cases node with
  | array items => exact skipItems_of_recordOfItems hfields h
  | object members =>
    obtain ⟨⟨seen, read⟩, hmembers, -⟩ := bind_eq_ok.mp h
    exact skipMembers_of_recordOfMembers hfields hmembers
  | _ => cases h

theorem document_chars (decode : Decoder α) (d : Document) :
    document decode ((d.chars false).map some) = decode .stream d.value.node := by
  rw [document, scan_document]
  dsimp only
  rw [d.after.skipBlanks_chars]
  cases decode .stream d.value.node with
  | error fault => rfl
  | ok a => rfl

/-- Only documents are read, and their values decide what is read. -/
theorem exists_document_of_ok {decode : Decoder α} (h : Thorough decode) {cs : List Char} {a : α}
    (hread : document decode (cs.map some) = .ok a) :
    ∃ d : Document, cs = d.chars false ∧ decode .stream d.value.node = .ok a := by
  rcases hscan : scan (cs.map some) with ⟨node, rest⟩
  rw [document, hscan] at hread
  obtain ⟨b, hnode, hend⟩ := bind_eq_ok.mp hread
  by_cases hrest : skipBlanks rest = []
  · obtain ⟨d, hcs, rfl⟩ := exists_document hscan (h hnode) hrest
    rw [if_pos (by rw [hrest]; rfl)] at hend
    cases hend
    exact ⟨d, hcs, hnode⟩
  · rw [if_neg (by simpa using hrest)] at hend
    cases hend

end ClusterBench.Json.Decoder
