import ClusterBench.Proofs.Json.NumberValues
import ClusterBench.Proofs.Json.Records
import ClusterBench.Proofs.Results.Repairs
import ClusterBench.Proofs.Results.TrailingCommas

/-!
# Summaries in the layout of the clients

A client writes each field on a line of its own, in any order, and may leave out the comma behind
the median. That line always gets a comma; if it is the last one the comma is in excess and is
dropped again. So what is decoded is an object with the lines as its members.
-/

namespace ClusterBench

open Json TrailingCommas

namespace RunData

section Values

variable {α : Type}

def valueOf? (r : RunData α) (name : String) : Option α := (names.zip r.toList).lookup name

def put (name : String) (x : α) (r : RunData α) : RunData α :=
  (ofList? (r.toList.set (names.idxOf name) x)).getD r

theorem exists_toList {values : List α} (h : values.length = 9) :
    ∃ r : RunData α, r.toList = values :=
  match values, h with
  | [a, b, c, d, e, f, g, h, i], _ => ⟨⟨a, b, c, d, e, f, g, h, i⟩, rfl⟩

theorem toList_put (name : String) (x : α) (r : RunData α) :
    (r.put name x).toList = r.toList.set (names.idxOf name) x := by
  have hlength : (r.toList.set (names.idxOf name) x).length = 9 := List.length_set
  obtain ⟨stored, hstored⟩ := exists_toList hlength
  rw [put, ← hstored, ofList?_toList]
  rfl

theorem lookup_cons_ite (key other : String) (x : α) (pairs : List (String × α)) :
    ((key, x) :: pairs).lookup other = if other = key then some x else pairs.lookup other := by
  by_cases h : other = key
  · simp [h]
  · rw [List.lookup_cons, beq_false_of_ne h, if_neg h]

theorem lookup_zip_set {keys : List String} {values : List α} {key : String}
    (hlength : values.length = keys.length) (hkey : key ∈ keys) (x : α) (other : String) :
    (keys.zip (values.set (keys.idxOf key) x)).lookup other =
      if other = key then some x else (keys.zip values).lookup other := by
  induction keys generalizing values with
  | nil => exact absurd hkey List.not_mem_nil
  | cons first keys ih =>
    obtain ⟨value, values, rfl⟩ := List.exists_cons_of_length_eq_add_one hlength
    by_cases hfirst : first = key
    · subst hfirst
      rw [List.idxOf_cons_self, List.set_cons_zero, List.zip_cons_cons, List.zip_cons_cons,
        lookup_cons_ite, lookup_cons_ite]
      split_ifs <;> rfl
    · have hrest : key ∈ keys := List.mem_of_ne_of_mem (Ne.symm hfirst) hkey
      rw [List.idxOf_cons_ne _ hfirst, List.set_cons_succ, List.zip_cons_cons,
        List.zip_cons_cons, lookup_cons_ite, lookup_cons_ite, ih (by simpa using hlength) hrest]
      split_ifs with hother heq
      · exact absurd (hother.symm.trans heq) hfirst
      all_goals rfl

theorem valueOf?_put {name : String} (h : name ∈ names) (x : α) (r : RunData α) (other : String) :
    (r.put name x).valueOf? other = if other = name then some x else r.valueOf? other := by
  have hlength : r.toList.length = names.length := rfl
  rw [valueOf?, toList_put]
  exact lookup_zip_set hlength h x other

/-- The values under the names make up the record. -/
theorem eq_of_valueOf? {r s : RunData α} (h : ∀ name ∈ names, r.valueOf? name = s.valueOf? name) :
    r = s := by
  cases r
  cases s
  simpa [names, valueOf?, toList, List.lookup] using h

end Values

/-- The line of a field. Its line end may have a carriage return, like any other one. -/
structure FieldLine where
  name : String
  number : NumberText
  comma : Bool
  carriage : Bool

def commaChars (comma : Bool) : List Char := if comma then [','] else []

namespace FieldLine

def field (line : FieldLine) : List Char :=
  '"' :: (line.name.toList ++ '"' :: ':' :: ' ' :: line.number.chars)

def content (line : FieldLine) : List Char := line.field ++ commaChars line.comma

def closed (line : FieldLine) : Bool := line.comma || line.name == "Median latency"

end FieldLine

/-- A summary as the clients write it: the lines of the fields in any order between a line with the
brace that opens the object and one with the brace that closes it, which need not have a line end.
The last field may have a comma and the median may lack it. -/
structure Layout where
  lines : List FieldLine
  perm : (lines.map FieldLine.name).Perm names
  comma : ∀ line ∈ lines.dropLast, line.comma = true ∨ line.name = "Median latency"
  opening : Bool
  closing : Option Bool

def Layout.chars (s : Layout) : List Char :=
  '\x7b' :: (lineEnd s.opening ++
    (s.lines.flatMap (fun line => line.content ++ lineEnd line.carriage) ++
      '\x7d' :: s.closing.elim [] lineEnd))

/-- What begins a text does so in front of a character that it does not hold. -/
theorem prefix_of_append_cons {as bs cs : List Char} {c : Char} (hc : c ∉ as)
    (h : as <+: bs ++ c :: cs) : as <+: bs := by
  rcases List.prefix_or_prefix_of_prefix h (List.prefix_append bs (c :: cs)) with has | ⟨rest, rfl⟩
  · exact has
  · have hrest : rest <+: c :: cs := (List.prefix_append_right_inj bs).mp h
    rcases List.prefix_cons_iff.mp hrest with rfl | ⟨tail, rfl, -⟩
    · rw [List.append_nil]
    · exact absurd (List.mem_append_right bs List.mem_cons_self) hc

namespace FieldLine

variable {line : FieldLine}

theorem prefix_content (h : line.name ∈ names) :
    "\"Median".toList <+: line.content ↔ line.name = "Median latency" := by
  have hnames : ∀ name ∈ names,
      "Median".toList <+: name.toList ↔ name = "Median latency" := by decide
  have hcontent : line.content = '"' :: (line.name.toList ++ '"' :: ':' :: ' ' ::
      (line.number.chars ++ commaChars line.comma)) := by
    simp [content, field]
  rw [hcontent]
  change '"' :: "Median".toList <+: _ ↔ _
  rw [List.cons_prefix_cons, ← hnames line.name h, and_iff_right rfl]
  constructor
  · exact prefix_of_append_cons (by decide)
  · intro hbegins
    exact hbegins.trans (List.prefix_append _ _)

theorem getLast?_content : line.content.getLast? = some ',' ↔ line.comma = true := by
  cases hcomma : line.comma with
  | true => simp [content, commaChars, hcomma]
  | false =>
    obtain ⟨digit, digits, hdigits, -⟩ := line.number.exists_digit
    have hne : line.number.chars ≠ [] := by
      rw [NumberText.chars, hdigits]
      simp
    have hlast : line.content.getLast? = line.number.chars.getLast? := by
      have hcontent : line.content =
          ('"' :: (line.name.toList ++ ['"', ':', ' '])) ++ line.number.chars := by
        simp [content, commaChars, hcomma, field]
      rw [hcontent, List.getLast?_append_of_ne_nil _ hne]
    rw [hlast]
    refine iff_of_false (fun hcomma => ?_) Bool.false_ne_true
    rcases line.number.mem_chars (List.mem_of_getLast? hcomma) with hdigit | hmem
    · cases hdigit
    · simp at hmem

/-- A line gets a comma if it is the one of the median, and has it no more than once. -/
theorem repairLine_content (h : line.name ∈ names) :
    repairLine line.content = line.field ++ commaChars line.closed := by
  by_cases hlacks : LacksComma line.content
  · obtain ⟨hname, hlast⟩ := id hlacks
    rw [prefix_content h] at hname
    rw [ne_eq, getLast?_content, Bool.not_eq_true] at hlast
    rw [repairLine_of_lacksComma hlacks, content, hlast, closed, hname]
    simp [commaChars]
  · rw [repairLine_of_not_lacksComma hlacks, content]
    rw [LacksComma, prefix_content h, ne_eq, getLast?_content] at hlacks
    have hclosed : line.closed = line.comma := by
      cases hcomma : line.comma <;> simp_all [closed]
    rw [hclosed]

theorem not_control_content (h : line.name ∈ names) : ∀ c ∈ line.content, ¬c < ' ' := by
  have hnames : ∀ name ∈ names, ∀ c ∈ name.toList, ¬c < ' ' := by simp [names]
  have hcomma : ∀ c ∈ commaChars line.comma, ¬c < ' ' := by
    cases line.comma <;> simp [commaChars]
  simp only [content, field, List.forall_mem_append, List.forall_mem_cons, List.cons_append]
  exact ⟨by decide, ⟨hnames line.name h, by decide, by decide, by decide, line.number.not_control⟩,
    hcomma⟩

end FieldLine

def members : List FieldLine → Members
  | [] => .done
  | line :: lines => .member (.text (.ok line.name)) (.number line.number.number) (members lines)

/-- The name on a line, behind a line feed. -/
theorem exists_nameText_line {name : String} (h : name ∈ names) : ∃ t : NameText,
    t.chars = '\n' :: '"' :: (name.toList ++ ['"', ':', ' ']) ∧ textOf t.key = .ok name := by
  have hwritten : ∀ name ∈ names,
      (writtenText name).toList = '"' :: (name.toList ++ ['"']) := by decide +kernel
  obtain ⟨t, ht, hkey⟩ := exists_nameText 0 name
  refine ⟨t, ?_, hkey⟩
  rw [ht, hwritten name h]
  simp [newLine]

def FieldLine.repaired (line : FieldLine) : List Char := line.field ++ commaChars line.closed

/-- Repaired lines up to the brace are members, perhaps with a comma in excess. -/
theorem exists_members {lines : List FieldLine} (hne : lines ≠ [])
    (hnames : ∀ line ∈ lines, line.name ∈ names)
    (hclosed : ∀ line ∈ lines.dropLast, line.closed = true) :
    ∃ (name : NameText) (value : Rendering) (more : MoreMembers),
      name.chars ++ (value.chars true ++ more.chars true) =
          behindFeeds (lines.map FieldLine.repaired) ++ ['\n', '\x7d'] ∧
        .member (.text (textOf name.key)) value.node more.members = members lines := by
  induction lines with
  | nil => exact absurd rfl hne
  | cons line lines ih =>
    rw [List.forall_mem_cons] at hnames
    obtain ⟨name, hname, hkey⟩ := exists_nameText_line hnames.1
    have hmore : ∃ more : MoreMembers, more.chars true = commaChars line.closed ++
        (behindFeeds (lines.map FieldLine.repaired) ++ ['\n', '\x7d']) ∧
          more.members = members lines := by
      by_cases hnil : lines = []
      · subst hnil
        cases line.closed with
        | true => exact ⟨.close .empty (some (lineGap 0)), rfl, rfl⟩
        | false => exact ⟨.close (lineGap 0) none, rfl, rfl⟩
      · rw [List.dropLast_cons_of_ne_nil hnil, List.forall_mem_cons] at hclosed
        obtain ⟨next, value, more, hchars, hmembers⟩ := ih hnil hnames.2 hclosed.2
        refine ⟨.next .empty next value more, ?_, ?_⟩
        · rw [MoreMembers.chars, hchars, hclosed.1]
          rfl
        · rw [MoreMembers.members, hmembers]
    obtain ⟨more, hchars, hmembers⟩ := hmore
    refine ⟨name, .number line.number, more, ?_, ?_⟩
    · rw [hname, hchars, Rendering.chars]
      simp [behindFeeds_cons, FieldLine.repaired, FieldLine.field]
    · rw [hmembers, hkey, Rendering.node, members]

namespace Layout

variable (s : Layout)

theorem name_mem {line : FieldLine} (h : line ∈ s.lines) : line.name ∈ names :=
  s.perm.subset (List.mem_map_of_mem h)

theorem lines_ne_nil : s.lines ≠ [] := by
  intro hnil
  have hlength := s.perm.length_eq
  rw [hnil] at hlength
  cases hlength

theorem linesOf_chars :
    linesOf s.chars = ['\x7b'] :: (s.lines.map FieldLine.content ++ [['\x7d']]) := by
  have hlast : linesOf ('\x7d' :: s.closing.elim [] lineEnd) = [['\x7d']] := by
    cases s.closing with
    | none => rfl
    | some carriage => cases carriage <;> rfl
  have hlines : ∀ lines : List FieldLine, (∀ line ∈ lines, line.name ∈ names) →
      linesOf (lines.flatMap (fun line => line.content ++ lineEnd line.carriage) ++
          '\x7d' :: s.closing.elim [] lineEnd) =
        lines.map FieldLine.content ++ [['\x7d']] := by
    intro lines hnames
    induction lines with
    | nil => exact hlast
    | cons line lines ih =>
      rw [List.forall_mem_cons] at hnames
      rw [List.flatMap_cons, List.append_assoc, List.append_assoc,
        linesOf_solid (FieldLine.not_control_content hnames.1), ih hnames.2]
      rfl
  have hbrace : ∀ c ∈ ['\x7b'], ¬c < ' ' := by simp
  exact (linesOf_solid hbrace s.opening _).trans
    (congrArg _ (hlines s.lines fun _ => s.name_mem))

theorem repaired_lines : ['\n'].intercalate ((linesOf s.chars).map repairLine) =
    '\x7b' :: (behindFeeds (s.lines.map FieldLine.repaired) ++ ['\n', '\x7d']) := by
  have hmap : s.lines.map (repairLine ∘ FieldLine.content) = s.lines.map FieldLine.repaired :=
    List.map_congr_left fun line hline => FieldLine.repairLine_content (s.name_mem hline)
  have hopen : repairLine ['\x7b'] = ['\x7b'] := rfl
  have hclose : repairLine ['\x7d'] = ['\x7d'] := rfl
  rw [s.linesOf_chars, List.map_cons, List.map_append, List.map_map, hmap, hopen,
    List.map_singleton, hclose, intercalate_cons, List.flatMap_append]
  rfl

/-- The repaired text is a document whose members are the lines. -/
theorem exists_document : ∃ d : Document,
    repaired (String.ofList s.chars) = d.chars false ∧
      d.value.node = .object (members s.lines) := by
  have hclosed : ∀ line ∈ s.lines.dropLast, line.closed = true := by
    intro line hline
    rw [FieldLine.closed, Bool.or_eq_true, beq_iff_eq]
    exact s.comma line hline
  obtain ⟨name, value, more, hchars, hmembers⟩ :=
    exists_members s.lines_ne_nil (fun _ => s.name_mem) hclosed
  refine ⟨⟨.empty, .object name value more, .empty⟩, ?_, ?_⟩
  · rw [repaired, String.toList_ofList, s.repaired_lines, ← hchars, ← stripFrom_document true]
    simp [Document.chars, Rendering.chars, Gap.empty]
  · rw [Rendering.node, hmembers]

theorem ofJson_chars (r : RunData Binary64) : ofJson (String.ofList s.chars) = .ok r ↔
    decode .stream (.object (members s.lines)) = .ok r := by
  obtain ⟨d, hchars, hnode⟩ := s.exists_document
  rw [ofJson, hchars, Decoder.document_chars, hnode]
  cases decode .stream (.object (members s.lines)) with
  | ok stored => simp
  | error fault => simp

end Layout

def FieldLine.value (line : FieldLine) : Except Fault Binary64 :=
  Decoder.ofText Decoder.real (String.ofList line.number.chars)

theorem real_number (line : FieldLine) :
    Decoder.real .stream (.number line.number.number) = line.value := by
  have hdocument := Decoder.document_chars Decoder.real ⟨.empty, .number line.number, .empty⟩
  rw [FieldLine.value, Decoder.ofText, String.toList_ofList, ← Rendering.node, ← hdocument]
  simp [Document.chars, Rendering.chars, Gap.empty]

theorem FieldLine.value_cases (line : FieldLine) :
    (∃ x, line.value = .ok x ∧ line.number.IsReading x) ∨
      line.value = .error .malformed ∧
        Binary64.magnitudeEnd ≤ line.number.numeral.size * (1 + 1 / 2 ^ 50) := by
  rw [← real_number]
  exact line.number.real_number_cases .stream

def numberField (name : String) : Decoder.RecordField (RunData Binary64) :=
  Decoder.field name .fault Decoder.real (put name)

theorem exists_decode_eq : ∃ start, decode = Decoder.record (names.map numberField) start :=
  ⟨_, rfl⟩

/-- What members are read as if they hold the lines: a name is seen once and has the value of its
line, and the values under the names of no line are as they were. -/
structure Stores (lines : List FieldLine) (seen : List String) (start : RunData Binary64)
    (stored : List String × RunData Binary64) : Prop where
  seen : stored.1 = (lines.map FieldLine.name).reverse ++ seen
  value : ∀ line ∈ lines, ∃ x ∈ stored.2.valueOf? line.name, line.value = .ok x
  other : ∀ name ∈ names, name ∉ lines.map FieldLine.name →
    stored.2.valueOf? name = start.valueOf? name

section Stores

variable {line : FieldLine} {lines : List FieldLine} {seen : List String}
  {start : RunData Binary64} {stored : List String × RunData Binary64}

theorem stores_nil : Stores [] seen start stored ↔ stored = (seen, start) := by
  constructor
  · intro h
    exact Prod.ext h.seen (eq_of_valueOf? fun name hname => h.other name hname List.not_mem_nil)
  · rintro rfl
    exact ⟨rfl, nofun, fun _ _ _ => rfl⟩

theorem stores_cons (hname : line.name ∈ names) (hfresh : line.name ∉ lines.map FieldLine.name) :
    Stores (line :: lines) seen start stored ↔
      ∃ x, line.value = .ok x ∧
        Stores lines (line.name :: seen) (start.put line.name x) stored := by
  constructor
  · intro h
    obtain ⟨⟨x, hx, hvalue⟩, hvalues⟩ := List.forall_mem_cons.mp h.value
    refine ⟨x, hvalue, by simpa using h.seen, hvalues, fun name hmem hother => ?_⟩
    rw [valueOf?_put hname]
    split_ifs with heq
    · rw [heq]
      exact hx
    · apply h.other name hmem
      rw [List.map_cons, List.mem_cons, not_or]
      exact ⟨heq, hother⟩
  · rintro ⟨x, hvalue, h⟩
    have hx : stored.2.valueOf? line.name = some x := by
      rw [h.other line.name hname hfresh, valueOf?_put hname, if_pos rfl]
    refine ⟨by simpa using h.seen, List.forall_mem_cons.mpr ⟨⟨x, hx, hvalue⟩, h.value⟩, ?_⟩
    intro name hmem hother
    rw [List.map_cons, List.mem_cons, not_or] at hother
    rw [h.other name hmem hother.2, valueOf?_put hname, if_neg hother.1]

theorem exists_stores (hdistinct : (lines.map FieldLine.name).Nodup)
    (hnames : ∀ line ∈ lines, line.name ∈ names)
    (hvalues : ∀ line ∈ lines, ∃ x, line.value = .ok x) (seen : List String)
    (start : RunData Binary64) : ∃ stored, Stores lines seen start stored := by
  induction lines generalizing seen start with
  | nil => exact ⟨_, stores_nil.mpr rfl⟩
  | cons line lines ih =>
    rw [List.map_cons, List.nodup_cons] at hdistinct
    rw [List.forall_mem_cons] at hnames hvalues
    obtain ⟨x, hx⟩ := hvalues.1
    obtain ⟨stored, hstored⟩ :=
      ih hdistinct.2 hnames.2 hvalues.2 (line.name :: seen) (start.put line.name x)
    exact ⟨stored, (stores_cons hnames.1 hdistinct.1).mpr ⟨x, hx, hstored⟩⟩

theorem recordOfMembers_lines (hdistinct : (lines.map FieldLine.name).Nodup)
    (hnames : ∀ line ∈ lines, line.name ∈ names) (hseen : ∀ line ∈ lines, line.name ∉ seen) :
    Decoder.recordOfMembers .stream (names.map numberField) (members lines) seen start =
      .ok stored ↔ Stores lines seen start stored := by
  induction lines generalizing seen start with
  | nil =>
    rw [stores_nil, members, Decoder.recordOfMembers, Except.ok.injEq, eq_comm]
  | cons line lines ih =>
    rw [List.map_cons, List.nodup_cons] at hdistinct
    rw [List.forall_mem_cons] at hnames hseen
    have hfields : ((names.map numberField).map Decoder.RecordField.name).Nodup := by
      decide
    have hunseen : ∀ other ∈ lines, other.name ∉ line.name :: seen := by
      intro other hother
      rw [List.mem_cons, not_or]
      refine ⟨fun heq => hdistinct.1 ?_, hseen.2 other hother⟩
      exact List.mem_map.mpr ⟨other, hother, heq⟩
    have hfield : numberField line.name ∈ names.map numberField :=
      List.mem_map_of_mem hnames.1
    have hstep (rest : Members) : Decoder.recordOfMembers .stream (names.map numberField)
        (.member (.text (.ok line.name)) (.number line.number.number) rest) seen start =
          (line.value >>= fun x => .ok (start.put line.name x)) >>= Decoder.recordOfMembers .stream
            (names.map numberField) rest (line.name :: seen) := by
      rw [← real_number]
      exact Decoder.recordOfMembers_member hfields hfield hseen.1 start
    rw [members, hstep, stores_cons hnames.1 hdistinct.1]
    simp only [bind_eq_ok, Except.ok.injEq]
    constructor
    · rintro ⟨next, ⟨x, hvalue, rfl⟩, hrest⟩
      exact ⟨x, hvalue, (ih hdistinct.2 hnames.2 hunseen).mp hrest⟩
    · rintro ⟨x, hvalue, hrest⟩
      exact ⟨_, ⟨x, hvalue, rfl⟩, (ih hdistinct.2 hnames.2 hunseen).mpr hrest⟩

end Stores

namespace Layout

variable (s : Layout)

theorem names_nodup : (s.lines.map FieldLine.name).Nodup := s.perm.nodup_iff.mpr (by decide)

theorem decode_members (r : RunData Binary64) :
    decode .stream (.object (members s.lines)) = .ok r ↔
      ∀ line ∈ s.lines, ∃ x ∈ r.valueOf? line.name, line.value = .ok x := by
  obtain ⟨start, hdecode⟩ := exists_decode_eq
  have hmembers (stored : List String × RunData Binary64) :
      Decoder.recordOfMembers .stream (names.map numberField) (members s.lines) [] start =
        .ok stored ↔ Stores s.lines [] start stored :=
    recordOfMembers_lines s.names_nodup (fun _ => s.name_mem) fun _ _ => List.not_mem_nil
  rw [hdecode]
  change (Decoder.recordOfMembers _ _ _ _ _ >>= fun stored => _) = _ ↔ _
  simp only [bind_eq_ok, hmembers]
  constructor
  · rintro ⟨stored, hstores, hall⟩
    split_ifs at hall
    cases hall
    exact hstores.value
  · intro hvalue
    refine ⟨((s.lines.map FieldLine.name).reverse ++ [], r), ⟨rfl, hvalue, ?_⟩, if_pos ?_⟩
    · intro name hname hother
      exact absurd (s.perm.symm.subset hname) hother
    · rw [List.all_eq_true, List.forall_mem_map]
      intro name hname
      rw [Bool.or_eq_true, List.contains_iff_mem, List.append_nil, List.mem_reverse]
      exact .inr (s.perm.symm.subset hname)

end Layout

/-- A summary in the layout of the clients is read as the record that has under the name of each
line what its number alone is read as. This is close to the number that is written, and the nearest
double where the numeral is short. There is such a record unless a number is so large that with an
error of the same kind it is beyond what doubles hold. -/
theorem ofJson_layout (s : Layout) :
    (∀ r, ofJson (String.ofList s.chars) = .ok r ↔
      ∀ line ∈ s.lines, ∃ x ∈ r.valueOf? line.name, line.value = .ok x) ∧
    (∀ r, ofJson (String.ofList s.chars) = .ok r →
      ∀ line ∈ s.lines, ∃ x ∈ r.valueOf? line.name, line.number.IsReading x) ∧
    ((∀ line ∈ s.lines, line.number.numeral.size * (1 + 1 / 2 ^ 50) < Binary64.magnitudeEnd) →
      ∃ r, ofJson (String.ofList s.chars) = .ok r) := by
  have hread (r : RunData Binary64) : ofJson (String.ofList s.chars) = .ok r ↔
      ∀ line ∈ s.lines, ∃ x ∈ r.valueOf? line.name, line.value = .ok x := by
    rw [s.ofJson_chars, s.decode_members]
  refine ⟨hread, fun r h line hline => ?_, fun hsizes => ?_⟩
  · obtain ⟨x, hx, hvalue⟩ := (hread r).mp h line hline
    rcases line.value_cases with ⟨y, hvalue', hreading⟩ | ⟨hfault, -⟩
    · cases hvalue.symm.trans hvalue'
      exact ⟨x, hx, hreading⟩
    · cases hvalue.symm.trans hfault
  · have hvalues : ∀ line ∈ s.lines, ∃ x, line.value = .ok x := by
      intro line hline
      rcases line.value_cases with ⟨x, hvalue, -⟩ | ⟨-, hlarge⟩
      · exact ⟨x, hvalue⟩
      · exact absurd (hsizes line hline) (not_lt.mpr hlarge)
    obtain ⟨start, -⟩ := exists_decode_eq
    obtain ⟨stored, hstored⟩ :=
      exists_stores s.names_nodup (fun _ => s.name_mem) hvalues [] start
    exact ⟨stored.2, (hread stored.2).mpr hstored.value⟩

def digitText (digit : Char) (h : digit.isDigit) : NumberText where
  negative := false
  whole := [digit]
  decimals := []
  power := none
  whole_ne := List.cons_ne_nil _ _
  allDigits_whole := by simpa [AllDigits] using h
  head_whole := nofun
  allDigits_decimals := List.forall_mem_nil _

def medianLast : Layout where
  lines :=
    [⟨"Max latency", digitText '9' rfl, true, false⟩, ⟨"OpsTput", digitText '1' rfl, true, false⟩,
     ⟨"DataTput", digitText '2' rfl, true, false⟩,
     ⟨"Records per second", digitText '3' rfl, true, true⟩,
     ⟨"Mean latency", digitText '4' rfl, true, true⟩,
     ⟨"95% latency", digitText '6' rfl, true, true⟩,
     ⟨"99% latency", digitText '7' rfl, true, true⟩,
     ⟨"Min latency", digitText '8' rfl, true, true⟩,
     ⟨"Median latency", digitText '5' rfl, false, true⟩]
  perm := by decide
  comma := by simp
  opening := false
  closing := none

theorem ofJson_medianLast :
    let text := String.ofList medianLast.chars
    let record : RunData Binary64 := ⟨1.0, 2.0, 3.0, 4.0, 5.0, 6.0, 7.0, 8.0, 9.0⟩
    (∀ line ∈ medianLast.lines,
      line.number.numeral.size * (1 + 1 / 2 ^ 50) < Binary64.magnitudeEnd) ∧
    (∃ r, ofJson text = .ok r) ∧ ofJson text = .ok record ∧
    ∀ line ∈ medianLast.lines, ∃ x ∈ record.valueOf? line.name, line.number.IsReading x := by
  obtain ⟨hiff, hreading, hexists⟩ := ofJson_layout medianLast
  have hdigits : ∀ line ∈ medianLast.lines,
      line.number.numeral.digits ≤ 9 ∧ line.number.numeral.scale = 0 := by decide
  have hsizes : ∀ line ∈ medianLast.lines,
      line.number.numeral.size * (1 + 1 / 2 ^ 50) < Binary64.magnitudeEnd := by
    intro line hline
    obtain ⟨hle, hscale⟩ := hdigits line hline
    have hdigit : (line.number.numeral.digits : ℚ) ≤ 9 := by exact_mod_cast hle
    have hend : ((10 : ℕ) : ℚ) < Binary64.magnitudeEnd := Binary64.lt_end_of_lt (by norm_num)
    rw [Numeral.size, hscale, zpow_zero, mul_one]
    push_cast at hend
    linarith
  have hread := (hiff ⟨1.0, 2.0, 3.0, 4.0, 5.0, 6.0, 7.0, 8.0, 9.0⟩).mpr (by decide +kernel)
  exact ⟨hsizes, hexists hsizes, hread, hreading _ hread⟩

def longMedian : Layout where
  lines :=
    [⟨"OpsTput", digitText '1' rfl, true, false⟩, ⟨"DataTput", digitText '2' rfl, true, false⟩,
     ⟨"Records per second", digitText '3' rfl, true, false⟩,
     ⟨"Mean latency", digitText '4' rfl, true, false⟩,
     ⟨"Median latency",
      { digitText '5' rfl with
        whole := "51".toList
        decimals := "248178375505404".toList
        whole_ne := by decide
        allDigits_whole := by simp [AllDigits]
        head_whole := nofun
        allDigits_decimals := by simp [AllDigits] }, false, false⟩,
     ⟨"95% latency", digitText '6' rfl, true, false⟩,
     ⟨"99% latency", digitText '7' rfl, true, false⟩,
     ⟨"Min latency", digitText '8' rfl, true, false⟩,
     ⟨"Max latency", digitText '9' rfl, false, false⟩]
  perm := by decide
  comma := by simp
  opening := false
  closing := some false

def longMedianRecord : RunData Binary64 :=
  ⟨1.0, 2.0, 3.0, 4.0, 51.248178375505404, 6.0, 7.0, 8.0, 9.0⟩

/-- The doubles nearest to the numbers of a summary need not be what is read. -/
theorem ofJson_longMedian :
    (∀ line ∈ longMedian.lines, ∃ x ∈ longMedianRecord.valueOf? line.name,
      Binary64.IsDoubleNearest line.number.negative line.number.numeral.size x) ∧
    ofJson (String.ofList longMedian.chars) ≠ .ok longMedianRecord := by
  constructor
  · intro line hline
    have hdecimal : ∀ line ∈ longMedian.lines, line.number.negative = false ∧
        longMedianRecord.valueOf? line.name = some (Binary64.ofDecimal false
          line.number.numeral.digits line.number.numeral.scale) ∧
        (line.number.numeral.digits ≠ 0 ∧ line.number.numeral.digits < 2 ^ 64) ∧
        -15 ≤ line.number.numeral.scale ∧ line.number.numeral.scale ≤ 0 := by
      decide +kernel
    obtain ⟨hsign, hvalue, ⟨hzero, hword⟩, hlow, hhigh⟩ := hdecimal line hline
    refine ⟨_, hvalue, ?_⟩
    rw [hsign, Numeral.size]
    generalize line.number.numeral.digits = digits at *
    generalize line.number.numeral.scale = scale at *
    have hlog : digits.log2 < 64 := (Nat.log2_lt hzero).mpr hword
    apply Binary64.isDoubleNearest_ofDecimal false hzero (by omega) (by omega)
    calc (digits * 10 ^ scale : ℚ) ≤ digits :=
          mul_le_of_le_one_right digits.cast_nonneg (zpow_le_one_of_nonpos₀ (by norm_num) hhigh)
      _ < Binary64.magnitudeEnd := Binary64.lt_end_of_lt (hword.trans (by norm_num))
  · rw [ne_eq, longMedian.ofJson_chars, longMedian.decode_members]
    intro hread
    exact absurd hread (by decide +kernel)

end RunData

end ClusterBench
