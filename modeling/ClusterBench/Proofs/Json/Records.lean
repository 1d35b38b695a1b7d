import ClusterBench.Proofs.Computations
import ClusterBench.Proofs.Json.Written

/-!
# Reading written records back

A record is written as an object with a member for each field. It is read back as it was, unless a
double in it is not finite: that one is written as null, which is of no use to a reader of numbers.
-/

namespace ClusterBench.Json

namespace Value

mutual

def reals : Value → List Binary64
  | real x => [x]
  | array values => itemReals values
  | object members => memberReals members
  | _ => []

def itemReals : List Value → List Binary64
  | [] => []
  | value :: values => value.reals ++ itemReals values

def memberReals : List (String × Value) → List Binary64
  | [] => []
  | (_, value) :: members => value.reals ++ memberReals members

end

theorem mem_itemReals {values : List Value} {x : Binary64} :
    x ∈ itemReals values ↔ ∃ value ∈ values, x ∈ value.reals := by
  induction values with
  | nil => simp [itemReals]
  | cons value values ih => simp [itemReals, ih]

theorem mem_memberReals {members : List (String × Value)} {x : Binary64} :
    x ∈ memberReals members ↔ ∃ member ∈ members, x ∈ member.2.reals := by
  induction members with
  | nil => simp [memberReals]
  | cons member members ih => simp [memberReals, ih]

def IsFinite (value : Value) : Prop := ∀ x ∈ value.reals, x.isFinite

def IsExact (value : Value) : Prop :=
  ∀ x ∈ value.reals, x.isFinite → Decoder.ofText Decoder.real x.jsonText = .ok x

theorem forall_array_iff {p : Binary64 → Prop} {values : List Value} :
    (∀ x ∈ (array values).reals, p x) ↔ ∀ value ∈ values, ∀ x ∈ value.reals, p x := by
  simp only [reals, mem_itemReals]
  exact ⟨fun h value hvalue x hx => h x ⟨value, hvalue, hx⟩,
    fun h x ⟨value, hvalue, hx⟩ => h value hvalue x hx⟩

theorem forall_object_iff {p : Binary64 → Prop} {members : List (String × Value)} :
    (∀ x ∈ (object members).reals, p x) ↔ ∀ member ∈ members, ∀ x ∈ member.2.reals, p x := by
  simp only [reals, mem_memberReals]
  exact ⟨fun h member hmember x hx => h x ⟨member, hmember, hx⟩,
    fun h x ⟨member, hmember, hx⟩ => h member hmember x hx⟩

end Value

namespace Decoder

variable {α σ : Type}

/-- A written value is read back as `a`, or refused for its shape because of a double in it that is
not finite. -/
structure Rereads (decode : Decoder α) (value : Value) (a : α) : Prop where
  of_finite : value.IsExact → value.IsFinite → decode .stream value.node = .ok a
  of_not_finite : value.IsExact → ¬value.IsFinite → decode .stream value.node = .error .shape

theorem Rereads.of_reals_eq_nil {decode : Decoder α} {value : Value} {a : α}
    (hreals : value.reals = []) (h : decode .stream value.node = .ok a) :
    Rereads decode value a := by
  have hfinite : value.IsFinite := by
    rw [Value.IsFinite, hreals]
    exact List.forall_mem_nil _
  exact ⟨fun _ _ => h, fun _ hnot => absurd hfinite hnot⟩

theorem rereads_text (s : String) : Rereads text (.text s) s :=
  .of_reals_eq_nil rfl rfl

theorem integer?_wordNode {n : ℕ} (h : n < 2 ^ wordBits) :
    Number.integer? ⟨false, ⟨Nat.toDigits 10 n, [], 0⟩, false, false⟩ = some (n : ℤ) := by
  rw [Number.integer?]
  simp [h]

theorem rereads_word {n : ℕ} (h : n < 2 ^ wordBits) : Rereads word (.word n) n := by
  apply Rereads.of_reals_eq_nil
  · rfl
  · simp only [word, natural, Value.node, wordNode, integer?_wordNode h]
    exact if_pos h

theorem rereads_oneOf {names : List (String × α)} {name : String} {a : α}
    (h : names.lookup name = some a) : Rereads (oneOf names) (.text name) a := by
  apply Rereads.of_reals_eq_nil
  · rfl
  · change named names name = .ok a
    rw [named, h]

theorem rereads_real (x : Binary64) : Rereads real (.real x) x := by
  have hmem : x ∈ (Value.real x).reals := List.mem_singleton_self x
  constructor
  · intro hexact hfinite
    have hread := hexact x hmem (hfinite x hmem)
    change document real (symbols x.jsonText) = .ok x at hread
    rw [document, scan_jsonText] at hread
    obtain ⟨y, hy, hread⟩ := bind_eq_ok.mp hread
    cases hread
    exact hy
  · intro _ hnot
    have hx : ¬x.isFinite := fun hx => hnot (List.forall_mem_singleton.mpr hx)
    rw [Value.node, realNode_of_not_isFinite hx]
    rfl

section Lists

variable {decode : Decoder α} {write : α → Value} {as : List α}

theorem itemsOf_finite (h : ∀ a ∈ as, Rereads decode (write a) a)
    (hexact : ∀ a ∈ as, (write a).IsExact) (hfinite : ∀ a ∈ as, (write a).IsFinite) :
    itemsOf decode .stream (itemsNode (as.map write)) = .ok as := by
  induction as with
  | nil => rfl
  | cons a as ih =>
    rw [List.forall_mem_cons] at h hexact hfinite
    rw [List.map_cons, itemsNode, itemsOf, h.1.of_finite hexact.1 hfinite.1,
      ih h.2 hexact.2 hfinite.2]
    rfl

theorem itemsOf_not_finite (h : ∀ a ∈ as, Rereads decode (write a) a)
    (hexact : ∀ a ∈ as, (write a).IsExact) (hnot : ¬∀ a ∈ as, (write a).IsFinite) :
    itemsOf decode .stream (itemsNode (as.map write)) = .error .shape := by
  induction as with
  | nil => exact absurd (List.forall_mem_nil _) hnot
  | cons a as ih =>
    rw [List.forall_mem_cons] at h hexact hnot
    rw [List.map_cons, itemsNode, itemsOf]
    by_cases hfinite : (write a).IsFinite
    · rw [h.1.of_finite hexact.1 hfinite, ih h.2 hexact.2 fun hrest => hnot ⟨hfinite, hrest⟩]
      rfl
    · rw [h.1.of_not_finite hexact.1 hfinite]
      rfl

theorem rereads_list (h : ∀ a ∈ as, Rereads decode (write a) a) :
    Rereads (list decode) (.array (as.map write)) as := by
  constructor
  · intro hexact hfinite
    rw [Value.IsExact, Value.forall_array_iff, List.forall_mem_map] at hexact
    rw [Value.IsFinite, Value.forall_array_iff, List.forall_mem_map] at hfinite
    exact itemsOf_finite h hexact hfinite
  · intro hexact hnot
    rw [Value.IsExact, Value.forall_array_iff, List.forall_mem_map] at hexact
    rw [Value.IsFinite, Value.forall_array_iff, List.forall_mem_map] at hnot
    exact itemsOf_not_finite h hexact hnot

end Lists

/-- A member of a written record with the field that reads it: storing the member does what the slot
says, or fails. -/
structure Slot (σ : Type) where
  field : RecordField σ
  value : Value
  put : σ → σ
  of_finite : value.IsExact → value.IsFinite → ∀ record,
    field.store .stream value.node record = .ok (put record)
  of_not_finite : value.IsExact → ¬value.IsFinite → ∀ record,
    field.store .stream value.node record = .error .shape

namespace Slot

def of (name : String) (put : α → σ → σ) {decode : Decoder α} {value : Value} {a : α}
    (h : Rereads decode value a) : Slot σ where
  field := Decoder.field name .fault decode put
  value := value
  put := put a
  of_finite hexact hfinite record := by
    change (decode .stream value.node).bind _ = _
    rw [h.of_finite hexact hfinite]
    rfl
  of_not_finite hexact hnot record := by
    change (decode .stream value.node).bind _ = _
    rw [h.of_not_finite hexact hnot]
    rfl

def name (slot : Slot σ) : String := slot.field.name

@[simp] theorem field_name (slot : Slot σ) : slot.field.name = slot.name := rfl

def member (slot : Slot σ) : String × Value := (slot.name, slot.value)

end Slot

section Records

variable {slots rest : List (Slot σ)} {fields : List (RecordField σ)} {seen : List String}

theorem find?_name (hnames : (fields.map RecordField.name).Nodup) {field : RecordField σ}
    (hfield : field ∈ fields) : fields.find? (·.name == field.name) = some field := by
  induction fields with
  | nil => exact absurd hfield List.not_mem_nil
  | cons first fields ih =>
    rw [List.map_cons, List.nodup_cons] at hnames
    rcases List.mem_cons.mp hfield with rfl | hmem
    · exact List.find?_cons_of_pos (by simp)
    · have hne : first.name ≠ field.name := by
        intro heq
        exact hnames.1 (List.mem_map.mpr ⟨field, hmem, heq.symm⟩)
      rw [List.find?_cons_of_neg (by simpa using hne), ih hnames.2 hmem]

/-- A member is stored by the field of its name, which has not been seen. -/
theorem recordOfMembers_member {origin : Origin} {field : RecordField σ} {node : Node}
    {members : Members} (hnames : (fields.map RecordField.name).Nodup) (hfield : field ∈ fields)
    (hseen : field.name ∉ seen) (record : σ) :
    recordOfMembers origin fields (.member (.text (.ok field.name)) node members) seen record =
      (field.store origin node record).bind
        (recordOfMembers origin fields members (field.name :: seen)) := by
  have hcontains : seen.contains field.name = false := by simpa using hseen
  rw [recordOfMembers]
  simp only [Node.readText, bind, Except.bind, find?_name hnames hfield, hcontains,
    Bool.false_eq_true, if_false]

theorem recordOfMembers_cons {slot : Slot σ} (hnames : (slots.map Slot.name).Nodup)
    (hslot : slot ∈ slots) (hseen : slot.name ∉ seen) (record : σ) :
    recordOfMembers .stream (slots.map Slot.field)
        (membersNode ((slot :: rest).map Slot.member)) seen record =
      (slot.field.store .stream slot.value.node record).bind
        (recordOfMembers .stream (slots.map Slot.field) (membersNode (rest.map Slot.member))
          (slot.name :: seen)) := by
  rw [List.map_cons, Slot.member, membersNode]
  exact recordOfMembers_member (by rwa [List.map_map]) (List.mem_map_of_mem hslot) hseen record

/-- Which members are still to come, for fields of all slots. -/
structure Pending (slots rest : List (Slot σ)) (seen : List String) : Prop where
  subset : rest ⊆ slots
  distinct : (rest.map Slot.name).Nodup
  unseen : ∀ slot ∈ rest, slot.name ∉ seen

theorem Pending.tail {slot : Slot σ} (h : Pending slots (slot :: rest) seen) :
    Pending slots rest (slot.name :: seen) := by
  have hdistinct := h.distinct
  rw [List.map_cons, List.nodup_cons] at hdistinct
  refine ⟨fun _ hmem => h.subset (List.mem_cons_of_mem _ hmem), hdistinct.2, ?_⟩
  intro other hother
  rw [List.mem_cons, not_or]
  refine ⟨fun heq => hdistinct.1 ?_, h.unseen other (List.mem_cons_of_mem _ hother)⟩
  exact List.mem_map.mpr ⟨other, hother, heq⟩

theorem recordOfMembers_finite (hnames : (slots.map Slot.name).Nodup)
    (hexact : ∀ slot ∈ slots, slot.value.IsExact)
    (hfinite : ∀ slot ∈ rest, slot.value.IsFinite) (hpending : Pending slots rest seen)
    (record : σ) : recordOfMembers .stream (slots.map Slot.field)
        (membersNode (rest.map Slot.member)) seen record =
      .ok ((rest.map Slot.name).reverse ++ seen,
        rest.foldl (fun record slot => slot.put record) record) := by
  induction rest generalizing seen record with
  | nil => rfl
  | cons slot rest ih =>
    have hslot := hpending.subset List.mem_cons_self
    rw [List.forall_mem_cons] at hfinite
    rw [recordOfMembers_cons hnames hslot (hpending.unseen slot List.mem_cons_self),
      slot.of_finite (hexact slot hslot) hfinite.1]
    change recordOfMembers .stream _ _ _ (slot.put record) = _
    rw [ih hfinite.2 hpending.tail, List.map_cons, List.reverse_cons, List.append_assoc,
      List.singleton_append, List.foldl_cons]

theorem recordOfMembers_not_finite (hnames : (slots.map Slot.name).Nodup)
    (hexact : ∀ slot ∈ slots, slot.value.IsExact)
    (hnot : ¬∀ slot ∈ rest, slot.value.IsFinite) (hpending : Pending slots rest seen)
    (record : σ) : recordOfMembers .stream (slots.map Slot.field)
        (membersNode (rest.map Slot.member)) seen record = .error .shape := by
  induction rest generalizing seen record with
  | nil => exact absurd (List.forall_mem_nil _) hnot
  | cons slot rest ih =>
    have hslot := hpending.subset List.mem_cons_self
    rw [List.forall_mem_cons] at hnot
    rw [recordOfMembers_cons hnames hslot (hpending.unseen slot List.mem_cons_self)]
    by_cases hfinite : slot.value.IsFinite
    · rw [slot.of_finite (hexact slot hslot) hfinite]
      exact ih (fun hrest => hnot ⟨hfinite, hrest⟩) hpending.tail (slot.put record)
    · rw [slot.of_not_finite (hexact slot hslot) hfinite]
      rfl

/-- A record is read back from a member for each of its fields. -/
theorem Rereads.of_slots {start a : σ} {decode : Decoder σ} {value : Value} (slots : List (Slot σ))
    (hnames : (slots.map Slot.name).Nodup)
    (hdecode : decode = record (slots.map Slot.field) start)
    (hvalue : value = .object (slots.map Slot.member))
    (ha : slots.foldl (fun record slot => slot.put record) start = a) :
    Rereads decode value a := by
  have hpending : Pending slots slots [] :=
    ⟨List.Subset.refl _, hnames, fun _ _ => List.not_mem_nil⟩
  rw [hdecode, hvalue]
  constructor
  · intro hexact hfinite
    rw [Value.IsExact, Value.forall_object_iff, List.forall_mem_map] at hexact
    rw [Value.IsFinite, Value.forall_object_iff, List.forall_mem_map] at hfinite
    change (recordOfMembers .stream _ (membersNode _) [] start).bind _ = _
    rw [recordOfMembers_finite hnames hexact hfinite hpending, ha]
    apply if_pos
    rw [List.all_eq_true, List.forall_mem_map]
    intro slot hslot
    have hseen : ∃ other ∈ slots, other.name = slot.name := ⟨slot, hslot, rfl⟩
    simp [hseen]
  · intro hexact hnot
    rw [Value.IsExact, Value.forall_object_iff, List.forall_mem_map] at hexact
    rw [Value.IsFinite, Value.forall_object_iff, List.forall_mem_map] at hnot
    change (recordOfMembers .stream _ (membersNode _) [] start).bind _ = _
    rw [recordOfMembers_not_finite hnames hexact hnot hpending]
    rfl

end Records

theorem document_write (decode : Decoder α) (value : Value) :
    document decode (symbols (value.write 0)) = decode .stream value.node := by
  rw [document, scan_write]
  dsimp only
  cases decode .stream value.node with
  | error fault => rfl
  | ok a => rfl

end Decoder

end ClusterBench.Json
