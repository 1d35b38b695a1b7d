import ClusterBench.Proofs.Json.Scanned

/-!
# Scanning written values

A written value is a rendering, whatever it holds. So it is scanned as one node and nothing is left
behind it.
-/

namespace ClusterBench.Json

mutual

def Value.node : Value → Node
  | .null => .null
  | .bool b => .bool b
  | .word n => wordNode n
  | .real x => realNode x
  | .text text => .text (.ok text)
  | .array values => .array (itemsNode values)
  | .object members => .object (membersNode members)

def itemsNode : List Value → Items
  | [] => .done
  | value :: values => .item value.node (itemsNode values)

def membersNode : List (String × Value) → Members
  | [] => .done
  | (name, value) :: members => .member (.text (.ok name)) value.node (membersNode members)

end

def lineGap (depth : ℕ) : Gap where
  chars := (newLine depth).toList
  blank := by
    intro c hc
    simp only [newLine, String.toList_append, String.toList_ofList, List.mem_append,
      List.mem_replicate] at hc
    rcases hc with hline | ⟨-, rfl⟩
    · cases List.mem_singleton.mp hline
      rfl
    · rfl

/-- The name of a member behind a line end, with a blank in front of its value. -/
theorem exists_nameText (depth : ℕ) (text : String) : ∃ name : NameText,
    name.chars = (newLine depth).toList ++ ((writtenText text).toList ++ [':', ' ']) ∧
      textOf name.key = .ok text := by
  obtain ⟨glyphs, hquoted, htext⟩ := exists_quoted text
  refine ⟨⟨lineGap depth, glyphs, .empty, ⟨[' '], by simp [isAsciiBlank]⟩⟩, ?_, htext⟩
  rw [NameText.chars, hquoted]
  rfl

mutual

theorem Value.exists_rendering (depth : ℕ) : (value : Value) → ∃ t : Rendering,
    t.chars false = (value.write depth).toList ∧ t.node = value.node
  | .null => ⟨.null, by rw [Value.write]; rfl, by rw [Value.node]; rfl⟩
  | .bool b => by
    refine ⟨.bool b, ?_, by rw [Value.node]; rfl⟩
    rw [Value.write]
    cases b <;> rfl
  | .word n => by
    rw [Value.write, Value.node]
    exact exists_rendering_digitsText n
  | .real x => by
    rw [Value.write, Value.node]
    exact exists_rendering_jsonText x
  | .text text => by
    obtain ⟨glyphs, hquoted, htext⟩ := exists_quoted text
    refine ⟨.text glyphs, ?_, ?_⟩
    · rw [Rendering.chars, Value.write, hquoted]
    · rw [Rendering.node, Value.node, htext]
  | .array [] =>
    ⟨.emptyArray .empty, by rw [Value.write]; rfl, by rw [Value.node, itemsNode]; rfl⟩
  | .array (value :: values) => by
    obtain ⟨t, ht, htnode⟩ := value.exists_rendering (depth + 1)
    obtain ⟨more, hmore, hitems⟩ := exists_moreItems (depth + 1) depth values
    refine ⟨.array (lineGap (depth + 1)) t more, ?_, ?_⟩
    · rw [Rendering.chars, Value.write, ht, hmore]
      simp [lineGap]
    · rw [Rendering.node, Value.node, itemsNode, htnode, hitems]
  | .object [] =>
    ⟨.emptyObject .empty, by rw [Value.write]; rfl, by rw [Value.node, membersNode]; rfl⟩
  | .object ((text, value) :: members) => by
    obtain ⟨name, hname, htext⟩ := exists_nameText (depth + 1) text
    obtain ⟨t, ht, htnode⟩ := value.exists_rendering (depth + 1)
    obtain ⟨more, hmore, hmembers⟩ := exists_moreMembers (depth + 1) depth members
    refine ⟨.object name t more, ?_, ?_⟩
    · rw [Rendering.chars, Value.write, hname, ht, hmore]
      simp
    · rw [Rendering.node, Value.node, membersNode, htext, htnode, hmembers]

theorem exists_moreItems (depth outer : ℕ) : (values : List Value) → ∃ more : MoreItems,
    more.chars false =
        (Value.writeItems depth values).toList ++ ((newLine outer).toList ++ [']']) ∧
      more.items = itemsNode values
  | [] => ⟨.close (lineGap outer) none, by rw [Value.writeItems]; rfl, by rw [itemsNode]; rfl⟩
  | value :: values => by
    obtain ⟨t, ht, htnode⟩ := value.exists_rendering depth
    obtain ⟨more, hmore, hitems⟩ := exists_moreItems depth outer values
    refine ⟨.next .empty (lineGap depth) t more, ?_, ?_⟩
    · rw [MoreItems.chars, Value.writeItems, ht, hmore]
      simp [lineGap, Gap.empty]
    · rw [MoreItems.items, itemsNode, htnode, hitems]

theorem exists_moreMembers (depth outer : ℕ) : (members : List (String × Value)) →
    ∃ more : MoreMembers, more.chars false =
        (Value.writeMembers depth members).toList ++ ((newLine outer).toList ++ ['\x7d']) ∧
      more.members = membersNode members
  | [] =>
    ⟨.close (lineGap outer) none, by rw [Value.writeMembers]; rfl, by rw [membersNode]; rfl⟩
  | (text, value) :: members => by
    obtain ⟨name, hname, htext⟩ := exists_nameText depth text
    obtain ⟨t, ht, htnode⟩ := value.exists_rendering depth
    obtain ⟨more, hmore, hmembers⟩ := exists_moreMembers depth outer members
    refine ⟨.next .empty name t more, ?_, ?_⟩
    · rw [MoreMembers.chars, Value.writeMembers, hname, ht, hmore]
      simp [Gap.empty]
    · rw [MoreMembers.members, membersNode, htext, htnode, hmembers]

end

/-- A written value is one node and nothing is left behind it. -/
theorem scan_write (value : Value) : scan (symbols (value.write 0)) = (value.node, []) := by
  obtain ⟨t, ht, hnode⟩ := value.exists_rendering 0
  rw [symbols, ← ht, t.scan_chars, hnode]

end ClusterBench.Json
