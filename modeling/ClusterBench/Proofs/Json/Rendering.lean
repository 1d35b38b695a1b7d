import ClusterBench.Proofs.Json.Tokens

/-!
# Renderings of JSON

A rendering is a value as it may be written: tokens with gaps between them. Behind the last element
of an array or an object a comma may be in excess; the loose text of a rendering has these commas
and the strict text has not. A strict text is scanned as the node of its value.
-/

namespace ClusterBench.Json

structure NameText where
  before : Gap
  key : List Glyph
  beforeColon : Gap
  afterColon : Gap

def NameText.chars (name : NameText) : List Char :=
  name.before.chars ++ (quotedChars name.key ++ (name.beforeColon.chars ++
    ':' :: name.afterColon.chars))

def NameText.behind (gap : Gap) (name : NameText) : NameText :=
  { name with before := gap.append name.before }

@[simp] theorem NameText.chars_behind (gap : Gap) (name : NameText) :
    (name.behind gap).chars = gap.chars ++ name.chars := List.append_assoc ..

mutual

inductive Rendering
  | null
  | bool (value : Bool)
  | number (n : NumberText)
  | text (glyphs : List Glyph)
  | emptyArray (inside : Gap)
  | array (before : Gap) (value : Rendering) (rest : MoreItems)
  | emptyObject (inside : Gap)
  | object (name : NameText) (value : Rendering) (rest : MoreMembers)

inductive MoreItems
  | close (after : Gap) (excess : Option Gap)
  | next (after before : Gap) (value : Rendering) (rest : MoreItems)

inductive MoreMembers
  | close (after : Gap) (excess : Option Gap)
  | next (after : Gap) (name : NameText) (value : Rendering) (rest : MoreMembers)

end

/-- A comma in excess with the gap behind it. -/
def excessChars (loose : Bool) : Option Gap → List Char
  | none => []
  | some gap => (if loose then [','] else []) ++ gap.chars

mutual

def Rendering.chars (loose : Bool) : Rendering → List Char
  | .null => ['n', 'u', 'l', 'l']
  | .bool true => ['t', 'r', 'u', 'e']
  | .bool false => ['f', 'a', 'l', 's', 'e']
  | .number n => n.chars
  | .text glyphs => quotedChars glyphs
  | .emptyArray inside => '[' :: (inside.chars ++ [']'])
  | .array before value rest => '[' :: (before.chars ++ (value.chars loose ++ rest.chars loose))
  | .emptyObject inside => '\x7b' :: (inside.chars ++ ['\x7d'])
  | .object name value rest => '\x7b' :: (name.chars ++ (value.chars loose ++ rest.chars loose))

def MoreItems.chars (loose : Bool) : MoreItems → List Char
  | .close after excess => after.chars ++ (excessChars loose excess ++ [']'])
  | .next after before value rest =>
    after.chars ++ ',' :: (before.chars ++ (value.chars loose ++ rest.chars loose))

def MoreMembers.chars (loose : Bool) : MoreMembers → List Char
  | .close after excess => after.chars ++ (excessChars loose excess ++ ['\x7d'])
  | .next after name value rest =>
    after.chars ++ ',' :: (name.chars ++ (value.chars loose ++ rest.chars loose))

end

mutual

def Rendering.node : Rendering → Node
  | .null => .null
  | .bool value => .bool value
  | .number n => .number n.number
  | .text glyphs => .text (textOf glyphs)
  | .emptyArray _ => .array .done
  | .array _ value rest => .array (.item value.node rest.items)
  | .emptyObject _ => .object .done
  | .object name value rest =>
    .object (.member (.text (textOf name.key)) value.node rest.members)

def MoreItems.items : MoreItems → Items
  | .close _ _ => .done
  | .next _ _ value rest => .item value.node rest.items

def MoreMembers.members : MoreMembers → Members
  | .close _ _ => .done
  | .next _ name value rest => .member (.text (textOf name.key)) value.node rest.members

end

def Starts (c : Char) : Prop :=
  c = 'n' ∨ c = 't' ∨ c = 'f' ∨ c = '"' ∨ c = '[' ∨ c = '\x7b' ∨ c = '-' ∨ c.isDigit

theorem Starts.not_mem {c : Char} (h : Starts c) : c ∉ [',', ':', ']', '\x7d'] := by
  rcases h with rfl | rfl | rfl | rfl | rfl | rfl | rfl | h
  case inr.inr.inr.inr.inr.inr.inr =>
    intro hmem
    fin_cases hmem <;> cases h
  all_goals decide

theorem Starts.not_isBlank {c : Char} (h : Starts c) : isBlank c = false := by
  rcases h with rfl | rfl | rfl | rfl | rfl | rfl | rfl | h
  case inr.inr.inr.inr.inr.inr.inr => exact not_isBlank_of_isDigit h
  all_goals rfl

theorem NumberText.exists_digit (n : NumberText) :
    ∃ c cs, n.magnitude = c :: cs ∧ c.isDigit := by
  obtain ⟨c, cs, hwhole⟩ := List.exists_cons_of_ne_nil n.whole_ne
  exact ⟨c, _, by rw [magnitude, hwhole, List.cons_append],
    n.allDigits_whole c (by rw [hwhole]; exact List.mem_cons_self)⟩

theorem Rendering.exists_start (t : Rendering) (loose : Bool) :
    ∃ c cs, t.chars loose = c :: cs ∧ Starts c := by
  cases t with
  | number n =>
    obtain ⟨c, cs, hdigit, hc⟩ := n.exists_digit
    rw [Rendering.chars, NumberText.chars, hdigit]
    cases n.negative with
    | true => exact ⟨'-', c :: cs, rfl, by simp [Starts]⟩
    | false => exact ⟨c, cs, rfl, by simp [Starts, hc]⟩
  | bool value => cases value <;> exact ⟨_, _, rfl, by simp [Starts]⟩
  | text glyphs => exact ⟨'"', _, rfl, by simp [Starts]⟩
  | null | emptyArray | array | emptyObject | object =>
    rw [Rendering.chars]
    exact ⟨_, _, rfl, by simp [Starts]⟩

def Opens (cs : List Symbol) : Prop := ∃ c tail, cs = some c :: tail ∧ Starts c

theorem Rendering.opens (t : Rendering) (loose : Bool) (rest : List Symbol) :
    Opens ((t.chars loose).map some ++ rest) := by
  obtain ⟨c, cs, hstart, hc⟩ := t.exists_start loose
  exact ⟨c, cs.map some ++ rest, by rw [hstart]; rfl, hc⟩

theorem Rendering.length_pos (t : Rendering) (loose : Bool) : 0 < (t.chars loose).length := by
  obtain ⟨c, cs, hstart, -⟩ := t.exists_start loose
  rw [hstart]
  exact Nat.succ_pos _

theorem MoreItems.length_pos (more : MoreItems) (loose : Bool) :
    0 < (more.chars loose).length := by
  cases more <;> (rw [MoreItems.chars]; simp)

theorem MoreMembers.length_pos (more : MoreMembers) (loose : Bool) :
    0 < (more.chars loose).length := by
  cases more <;> (rw [MoreMembers.chars]; simp)

theorem scanValue_gap (fuel : ℕ) (gap : Gap) (cs : List Symbol) :
    scanValue fuel (gap.chars.map some ++ cs) = scanValue fuel cs := by
  cases fuel with
  | zero => rfl
  | succ fuel => rw [scanValue, scanValue, skipBlanks_gap]

theorem scanMembers_gap (fuel : ℕ) (first : Bool) (gap : Gap) (cs : List Symbol) :
    scanMembers fuel first (gap.chars.map some ++ cs) = scanMembers fuel first cs := by
  cases fuel with
  | zero => rfl
  | succ fuel => rw [scanMembers, scanMembers, skipBlanks_gap]

theorem scanValue_digit (fuel : ℕ) {c : Char} (hc : c.isDigit) (cs : List Symbol) :
    scanValue (fuel + 1) (some c :: cs) = scanNumber false (some c :: cs) := by
  rw [scanValue, skipBlanks_cons (not_isAsciiBlank (not_isBlank_of_isDigit hc))]
  split
  case h_9 heq =>
    cases heq
    exact if_pos hc
  -- In the other cases the first symbol is a known one and no digit.
  all_goals
    rename_i heq
    cases heq <;> cases hc

theorem scanValue_number (fuel : ℕ) (n : NumberText) {rest : List Symbol} (hrest : Ends rest) :
    scanValue (fuel + 1) (n.chars.map some ++ rest) = (.number n.number, rest) := by
  have hscan := scanNumber_magnitude n hrest
  rw [NumberText.chars]
  cases hnegative : n.negative with
  | true =>
    rw [hnegative] at hscan
    exact hscan
  | false =>
    rw [hnegative] at hscan
    obtain ⟨c, cs, hdigit, hc⟩ := n.exists_digit
    rw [← hscan, hdigit]
    exact scanValue_digit fuel hc _

theorem scanText_quotedChars (glyphs : List Glyph) (rest : List Symbol) :
    ∃ quoted, (quotedChars glyphs).map some = some '"' :: quoted ∧
      scanText ⟨[], none, false⟩ false (quoted ++ rest) = (.text (textOf glyphs), rest) := by
  refine ⟨(glyphs.flatMap Glyph.chars).map some ++ [some '"'], by simp [quotedChars], ?_⟩
  rw [List.append_assoc]
  exact scanText_glyphs _ glyphs rest

section Items

variable {fuel : ℕ} {cs rest rest' : List Symbol} {node : Node} {items : Items}

theorem scanItems_close (first : Bool) (gap : Gap) :
    scanItems (fuel + 1) first (gap.chars.map some ++ some ']' :: rest) = (.done, rest) := by
  rw [scanItems, skipBlanks_gap]
  rfl

/-- The first item, which is not at the end of its array. -/
theorem scanItems_first (hstart : Opens cs) (before : Gap)
    (hnode : scanValue fuel cs = (node, rest))
    (hitems : scanItems fuel false rest = (items, rest')) :
    scanItems (fuel + 1) true (before.chars.map some ++ cs) = (.item node items, rest') := by
  obtain ⟨c, cs, rfl, hc⟩ := hstart
  rw [scanItems, skipBlanks_gap, skipBlanks_cons (not_isAsciiBlank hc.not_isBlank)]
  split
  case h_1 heq => cases heq
  case h_2 heq =>
    cases heq
    exact absurd (by simp) hc.not_mem
  case h_3 heq =>
    cases heq
    simp only [if_true, hnode, hitems]

theorem scanItems_next (hstart : Opens cs) (after before : Gap)
    (hnode : scanValue fuel cs = (node, rest))
    (hitems : scanItems fuel false rest = (items, rest')) :
    scanItems (fuel + 1) false
      (after.chars.map some ++ some ',' :: (before.chars.map some ++ cs)) =
        (.item node items, rest') := by
  obtain ⟨c, cs, rfl, hc⟩ := hstart
  rw [scanItems, skipBlanks_gap, skipBlanks_cons rfl]
  split
  case h_1 heq => cases heq
  case h_2 heq => cases heq
  case h_3 heq =>
    cases heq
    rw [if_neg Bool.false_ne_true, if_pos rfl, skipBlanks_gap,
      skipBlanks_cons (not_isAsciiBlank hc.not_isBlank)]
    split
    case h_1 heq =>
      cases heq
      exact absurd (by simp) hc.not_mem
    case h_2 => simp only [hnode, hitems]

end Items

section Members

variable {fuel : ℕ} {name : NameText} {cs rest rest' : List Symbol} {node : Node}
  {members : Members}

theorem scanMembers_close (first : Bool) (gap : Gap) :
    scanMembers (fuel + 1) first (gap.chars.map some ++ some '\x7d' :: rest) = (.done, rest) := by
  rw [scanMembers, skipBlanks_gap]
  rfl

/-- The symbols of a name: a quoted text and a colon between gaps. -/
theorem exists_quoted_name (name : NameText) (cs : List Symbol) : ∃ quoted,
    name.chars.map some ++ cs = name.before.chars.map some ++ some '"' :: quoted ∧
      scanText ⟨[], none, false⟩ false quoted =
        (.text (textOf name.key), name.beforeColon.chars.map some ++ some ':' ::
          (name.afterColon.chars.map some ++ cs)) := by
  obtain ⟨quoted, hquoted, hscan⟩ := scanText_quotedChars name.key
    (name.beforeColon.chars.map some ++ some ':' :: (name.afterColon.chars.map some ++ cs))
  refine ⟨_, ?_, hscan⟩
  rw [NameText.chars, List.map_append, List.map_append, hquoted]
  simp

theorem scanMembers_first (name : NameText) (hnode : scanValue fuel cs = (node, rest))
    (hmembers : scanMembers fuel false rest = (members, rest')) :
    scanMembers (fuel + 1) true (name.chars.map some ++ cs) =
      (.member (.text (textOf name.key)) node members, rest') := by
  obtain ⟨quoted, hquoted, hkey⟩ := exists_quoted_name name cs
  rw [hquoted, scanMembers, skipBlanks_gap, skipBlanks_cons rfl]
  split
  case h_1 heq => cases heq
  case h_2 heq => cases heq
  case h_3 heq =>
    cases heq
    simp only [if_true, hkey, skipBlanks_gap,
      skipBlanks_cons (show isAsciiBlank ':' = false from rfl), scanValue_gap, hnode, hmembers]

theorem scanMembers_next (after : Gap) (name : NameText)
    (hnode : scanValue fuel cs = (node, rest))
    (hmembers : scanMembers fuel false rest = (members, rest')) :
    scanMembers (fuel + 1) false
      (after.chars.map some ++ some ',' :: (name.chars.map some ++ cs)) =
        (.member (.text (textOf name.key)) node members, rest') := by
  obtain ⟨quoted, hquoted, hkey⟩ := exists_quoted_name name cs
  rw [scanMembers, skipBlanks_gap, skipBlanks_cons rfl]
  split
  case h_1 heq => cases heq
  case h_2 heq => cases heq
  case h_3 heq =>
    cases heq
    rw [if_neg Bool.false_ne_true, if_pos rfl, hquoted, skipBlanks_gap, skipBlanks_cons rfl]
    split
    case h_1 heq => cases heq
    case h_2 =>
      simp only [hkey, skipBlanks_gap,
        skipBlanks_cons (show isAsciiBlank ':' = false from rfl), scanValue_gap, hnode, hmembers]

end Members

theorem ends_close (after : Gap) {c : Char} (hc : c = ',' ∨ c = ']' ∨ c = '\x7d')
    (cs : List Symbol) : Ends (after.chars.map some ++ some c :: cs) := by
  obtain ⟨chars, hblank⟩ := after
  cases chars with
  | nil => exact .inr ⟨c, cs, rfl, .inr hc⟩
  | cons blank chars =>
    exact .inr ⟨blank, _, rfl, .inl (hblank blank List.mem_cons_self)⟩

/-- What stands in front of a closing bracket in a strict text is a gap. -/
theorem exists_closing_gap (after : Gap) (excess : Option Gap) :
    ∃ gap : Gap, gap.chars = after.chars ++ excessChars false excess := by
  cases excess with
  | none => exact ⟨after, by simp [excessChars]⟩
  | some gap => exact ⟨after.append gap, by simp [excessChars]⟩

theorem MoreItems.ends (more : MoreItems) (rest : List Symbol) :
    Ends ((more.chars false).map some ++ rest) := by
  cases more with
  | close after excess =>
    obtain ⟨gap, hgap⟩ := exists_closing_gap after excess
    rw [MoreItems.chars, ← List.append_assoc, ← hgap, List.map_append, List.append_assoc]
    exact ends_close gap (by simp) rest
  | next after before value more =>
    rw [MoreItems.chars, List.map_append, List.append_assoc]
    exact ends_close after (by simp) _

theorem MoreMembers.ends (more : MoreMembers) (rest : List Symbol) :
    Ends ((more.chars false).map some ++ rest) := by
  cases more with
  | close after excess =>
    obtain ⟨gap, hgap⟩ := exists_closing_gap after excess
    rw [MoreMembers.chars, ← List.append_assoc, ← hgap, List.map_append, List.append_assoc]
    exact ends_close gap (by simp) rest
  | next after name value more =>
    rw [MoreMembers.chars, List.map_append, List.append_assoc]
    exact ends_close after (by simp) _

theorem scanValue_array {fuel : ℕ} {cs rest : List Symbol} {items : Items}
    (h : scanItems fuel true cs = (items, rest)) :
    scanValue (fuel + 1) (some '[' :: cs) = (.array items, rest) := by
  rw [scanValue, skipBlanks_cons rfl]
  simp only [h]

theorem scanValue_object {fuel : ℕ} {cs rest : List Symbol} {members : Members}
    (h : scanMembers fuel true cs = (members, rest)) :
    scanValue (fuel + 1) (some '\x7b' :: cs) = (.object members, rest) := by
  rw [scanValue, skipBlanks_cons rfl]
  simp only [h]

mutual

/-- A rendering is scanned as its node, and what follows it is left; fuel beyond its length is
enough. -/
theorem Rendering.scanValue_chars (t : Rendering) {fuel : ℕ} {rest : List Symbol}
    (hrest : Ends rest) (hfuel : (t.chars false).length < fuel) :
    scanValue fuel ((t.chars false).map some ++ rest) = (t.node, rest) := by
  obtain ⟨fuel, rfl⟩ := Nat.exists_eq_add_one_of_ne_zero (Nat.ne_zero_of_lt hfuel)
  match t with
  | .null | .bool true | .bool false =>
    rw [Rendering.chars]
    rfl
  | .number n => exact scanValue_number fuel n hrest
  | .text glyphs =>
    obtain ⟨quoted, hquoted, hscan⟩ := scanText_quotedChars glyphs rest
    rw [Rendering.chars, hquoted]
    exact hscan
  | .emptyArray inside =>
    rw [Rendering.chars, List.length_cons, List.length_append] at hfuel
    obtain ⟨fuel, rfl⟩ : ∃ n, fuel = n + 1 := ⟨fuel - 1, by omega⟩
    rw [Rendering.chars, List.map_cons, List.map_append, List.cons_append, List.append_assoc]
    exact scanValue_array (scanItems_close true inside)
  | .array before value more =>
    have hvalue := value.length_pos false
    have hmore := more.length_pos false
    rw [Rendering.chars, List.length_cons, List.length_append, List.length_append] at hfuel
    obtain ⟨fuel, rfl⟩ : ∃ n, fuel = n + 1 := ⟨fuel - 1, by omega⟩
    rw [Rendering.chars, List.map_cons, List.map_append, List.map_append, List.cons_append,
      List.append_assoc, List.append_assoc]
    apply scanValue_array
    apply scanItems_first (value.opens false _)
    · exact value.scanValue_chars (more.ends rest) (by omega)
    · exact more.scanItems_chars (by omega)
  | .emptyObject inside =>
    rw [Rendering.chars, List.length_cons, List.length_append] at hfuel
    obtain ⟨fuel, rfl⟩ : ∃ n, fuel = n + 1 := ⟨fuel - 1, by omega⟩
    rw [Rendering.chars, List.map_cons, List.map_append, List.cons_append, List.append_assoc]
    exact scanValue_object (scanMembers_close true inside)
  | .object name value more =>
    have hvalue := value.length_pos false
    have hmore := more.length_pos false
    rw [Rendering.chars, List.length_cons, List.length_append, List.length_append] at hfuel
    obtain ⟨fuel, rfl⟩ : ∃ n, fuel = n + 1 := ⟨fuel - 1, by omega⟩
    rw [Rendering.chars, List.map_cons, List.map_append, List.map_append, List.cons_append,
      List.append_assoc, List.append_assoc]
    apply scanValue_object
    apply scanMembers_first name
    · exact value.scanValue_chars (more.ends rest) (by omega)
    · exact more.scanMembers_chars (by omega)

theorem MoreItems.scanItems_chars (more : MoreItems) {fuel : ℕ} {rest : List Symbol}
    (hfuel : (more.chars false).length < fuel) :
    scanItems fuel false ((more.chars false).map some ++ rest) = (more.items, rest) := by
  obtain ⟨fuel, rfl⟩ := Nat.exists_eq_add_one_of_ne_zero (Nat.ne_zero_of_lt hfuel)
  match more with
  | .close after excess =>
    obtain ⟨gap, hgap⟩ := exists_closing_gap after excess
    rw [MoreItems.chars, ← List.append_assoc, ← hgap, List.map_append, List.append_assoc]
    exact scanItems_close false gap
  | .next after before value more =>
    simp only [MoreItems.chars, List.length_append, List.length_cons] at hfuel
    simp only [MoreItems.chars, List.map_append, List.map_cons, List.append_assoc,
      List.cons_append]
    apply scanItems_next (value.opens false _)
    · exact value.scanValue_chars (more.ends rest) (by omega)
    · exact more.scanItems_chars (by omega)

theorem MoreMembers.scanMembers_chars (more : MoreMembers) {fuel : ℕ} {rest : List Symbol}
    (hfuel : (more.chars false).length < fuel) :
    scanMembers fuel false ((more.chars false).map some ++ rest) = (more.members, rest) := by
  obtain ⟨fuel, rfl⟩ := Nat.exists_eq_add_one_of_ne_zero (Nat.ne_zero_of_lt hfuel)
  match more with
  | .close after excess =>
    obtain ⟨gap, hgap⟩ := exists_closing_gap after excess
    rw [MoreMembers.chars, ← List.append_assoc, ← hgap, List.map_append, List.append_assoc]
    exact scanMembers_close false gap
  | .next after name value more =>
    simp only [MoreMembers.chars, List.length_append, List.length_cons] at hfuel
    simp only [MoreMembers.chars, List.map_append, List.map_cons, List.append_assoc,
      List.cons_append]
    apply scanMembers_next after name
    · exact value.scanValue_chars (more.ends rest) (by omega)
    · exact more.scanMembers_chars (by omega)

end

/-- A strict text is one node and nothing is left behind it. -/
theorem Rendering.scan_chars (t : Rendering) : scan ((t.chars false).map some) = (t.node, []) := by
  have hfuel : (t.chars false).length < 3 * ((t.chars false).map some).length + 3 := by
    rw [List.length_map]
    omega
  have h := t.scanValue_chars (.inl rfl) hfuel
  rwa [List.append_nil] at h

end ClusterBench.Json
