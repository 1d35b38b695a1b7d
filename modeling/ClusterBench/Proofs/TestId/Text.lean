import ClusterBench.Proofs.Binary64.ReadBack
import ClusterBench.Proofs.Text.Words
import ClusterBench.TestId

/-!
# The texts of test ids

The text of an id is its prefix, a dash and a tagged number for each field, and the inter-arrival
time. The inter-arrival time holds no `t` and the tagged numbers hold no dash, so the text is cut
from its end into the same pieces again, whatever the prefix looks like.
-/

namespace ClusterBench

@[simp] theorem toString_string (text : String) : toString text = text := rfl

theorem splitLast?_eq_none {pattern cs : List Char} {c : Char} (hc : c ∈ pattern)
    (h : c ∉ cs) : splitLast? pattern cs = none := by
  induction cs with
  | nil => rfl
  | cons d cs ih =>
    have hstart : pattern.isPrefixOf (d :: cs) = false := by
      rw [Bool.eq_false_iff]
      intro hp
      exact h ((List.isPrefixOf_iff_prefix.mp hp).subset hc)
    rw [splitLast?, ih fun hmem => h (List.mem_cons_of_mem d hmem)]
    simp [hstart]

theorem splitLast?_append {pattern cs before after : List Char} (as : List Char)
    (h : splitLast? pattern cs = some (before, after)) :
    splitLast? pattern (as ++ cs) = some (as ++ before, after) := by
  induction as with
  | nil => exact h
  | cons a as ih => rw [List.cons_append, splitLast?, ih, List.cons_append]

theorem splitLast?_drop {pattern cs : List Char} (h : splitLast? pattern cs = none) (n : ℕ) :
    splitLast? pattern (cs.drop n) = none := by
  rw [Option.eq_none_iff_forall_not_mem]
  rintro ⟨before, after⟩ hsome
  have hwhole := splitLast?_append (cs.take n) (Option.mem_def.mp hsome)
  rw [List.take_append_drop, h] at hwhole
  cases hwhole

/-- The last place is between what stands before and behind it, and behind it there is none. -/
theorem eq_of_splitLast? {pattern cs before after : List Char} (hne : pattern ≠ [])
    (h : splitLast? pattern cs = some (before, after)) :
    cs = before ++ (pattern ++ after) ∧ splitLast? pattern after = none := by
  induction cs generalizing before with
  | nil => cases h
  | cons c cs ih =>
    rw [splitLast?] at h
    split at h
    next first last hsplit =>
      cases h
      obtain ⟨heq, hnone⟩ := ih hsplit
      exact ⟨by rw [heq, List.cons_append], hnone⟩
    next hnone =>
      rw [Option.ite_none_right_eq_some, List.isPrefixOf_iff_prefix] at h
      obtain ⟨hstart, heq⟩ := h
      cases heq
      refine ⟨(List.prefix_iff_eq_append.mp hstart).symm, ?_⟩
      obtain ⟨d, ds, rfl⟩ := List.exists_cons_of_ne_nil hne
      rw [List.length_cons, List.drop_succ_cons]
      exact splitLast?_drop hnone ds.length

theorem splitLast?_iat (as : List Char) {after : List Char}
    (h : splitLast? "-iat".toList after = none) :
    splitLast? "-iat".toList (as ++ ("-iat".toList ++ after)) = some (as, after) := by
  have hsome : splitLast? "-iat".toList ("-iat".toList ++ after) = some ([], after) := by
    simp [splitLast?] at h ⊢
    simp [h]
  simpa using splitLast?_append as hsome

namespace TestId

def fieldChars (tag : String) (n : ℕ) : List Char := tag.toList ++ Nat.toDigits 10 n

theorem fieldChars_injective {tag : String} {m n : ℕ} (h : fieldChars tag m = fieldChars tag n) :
    m = n := toDigits_injective (List.append_cancel_left h)

theorem notMem_fieldChars {tag : String} {c : Char} (hdigit : c.isDigit = false)
    (h : c ∉ tag.toList) (n : ℕ) : c ∉ fieldChars tag n := by
  have hdigits : c ∉ Nat.toDigits 10 n := (allDigits_toDigits n).notMem hdigit
  simp [fieldChars, h, hdigits]

def perMachineFields (id : TestId) : List (List Char) :=
  match id.system with
  | .kawkab => []
  | .btrdb => [fieldChars "cpm" id.clientsPerMachine]

def fields (id : TestId) : List (List Char) :=
  fieldChars "nc" id.numClients :: (id.perMachineFields ++
    [fieldChars "bs" id.batchSize, fieldChars "rs" id.recordSize,
      fieldChars "nf" id.filesPerClient, fieldChars "wr" id.writeRatio])

theorem toList_text (id : TestId) :
    id.text.toList = id.prefixText.toList ++ id.fields.flatMap (List.cons '-') ++
      ("-iat".toList ++ id.iatText.toList) := by
  unfold text fields perMachineText perMachineFields
  cases id.system <;> simp [fieldChars]

theorem notMem_of_mem_fields {id : TestId} {c : Char} (hdigit : c.isDigit = false)
    (htags : c ∉ "ncpmbsrfw".toList) {field : List Char} (h : field ∈ id.fields) : c ∉ field := by
  have htag {tag : String} (hsub : tag.toList ⊆ "ncpmbsrfw".toList) (n : ℕ) :
      c ∉ fieldChars tag n := notMem_fieldChars hdigit (fun hmem => htags (hsub hmem)) n
  have hmachine : ∀ field ∈ id.perMachineFields, c ∉ field := by
    unfold perMachineFields
    cases id.system
    · simp
    · simpa using htag (by decide) _
  simp only [fields, List.mem_cons, List.mem_append, List.not_mem_nil, or_false] at h
  rcases h with rfl | hmem | rfl | rfl | rfl | rfl
  · exact htag (by decide) _
  · exact hmachine field hmem
  all_goals exact htag (by decide) _

theorem splitOn_flatMap_cons (as : List Char) {c : Char} {parts : List (List Char)}
    (h : ∀ part ∈ parts, c ∉ part) :
    (as ++ parts.flatMap (List.cons c)).splitOn c = as.splitOn c ++ parts := by
  induction parts using List.reverseRecOn with
  | nil => simp
  | append_singleton parts part ih =>
    have hpart : c ∉ part := h part (by simp)
    rw [List.flatMap_append, List.flatMap_singleton, ← List.append_assoc,
      List.splitOn_append_cons_self, List.splitOn_eq_singleton hpart,
      ih fun part hp => h part (List.mem_append_left _ hp), List.append_assoc]

/-- The parts that reading an id takes, from the last one. -/
theorem reverse_splitWhere_text (id : TestId) :
    (splitWhere (· == '-') (id.prefixText.toList ++ id.fields.flatMap (List.cons '-'))).reverse =
      id.fields.reverse ++ (id.prefixText.toList.splitOn '-').reverse := by
  rw [splitWhere_beq, splitOn_flatMap_cons _ fun _ => notMem_of_mem_fields rfl (by decide),
    List.reverse_append]

theorem specialText_subset (x : Binary64) :
    x.specialText.toList ++ x.specialText.toLower.toList ⊆ "-infaN".toList := by
  unfold Binary64.specialText Binary64.signText String.toLower
  rw [String.toList_map]
  cases x.isNaN <;> cases x.negative <;> decide

/-- An inter-arrival time is shown with digits and a few other characters. -/
theorem mem_iatText {id : TestId} {c : Char} (h : c ∈ id.iatText.toList) :
    c.isDigit ∨ c ∈ "+-.einfaN".toList := by
  have hnumeral {cs : List Char} (hcs : AllNumeral cs) (hc : c ∈ cs) :
      c.isDigit ∨ c ∈ "+-.einfaN".toList :=
    (hcs c hc).imp_right (List.mem_append_left "infaN".toList)
  have hspecial (hc : c ∈ id.iat.specialText.toList ++ id.iat.specialText.toLower.toList) :
      c.isDigit ∨ c ∈ "+-.einfaN".toList :=
    Or.inr ((by decide : "-infaN".toList ⊆ "+-.einfaN".toList) (specialText_subset id.iat hc))
  unfold iatText at h
  by_cases hx : id.iat.isFinite
  · cases hsystem : id.system <;> rw [hsystem] at h
    · exact hnumeral (Binary64.allNumeral_general hx) h
    · exact hnumeral (Binary64.allNumeral_fixed hx two_ne_zero) h
  · rw [Bool.not_eq_true] at hx
    rw [Binary64.general_of_not_isFinite hx, Binary64.fixed_of_not_isFinite hx] at h
    cases hsystem : id.system <;> rw [hsystem] at h
    · exact hspecial (List.mem_append_right _ h)
    · exact hspecial (List.mem_append_left _ h)

theorem t_notMem_iatText (id : TestId) : 't' ∉ id.iatText.toList := by
  intro h
  rcases mem_iatText h with hdigit | hmark
  · exact absurd hdigit (by decide)
  · exact absurd hmark (by decide)

/-- The only slashes in an id are those of its prefix. -/
theorem exists_text_tail (id : TestId) :
    ∃ tail, id.text.toList = id.prefixText.toList ++ tail ∧ '/' ∉ tail := by
  have hfields : '/' ∉ id.fields.flatMap (List.cons '-') := by
    intro hmem
    obtain ⟨field, hfield, hslash⟩ := List.mem_flatMap.mp hmem
    rcases List.mem_cons.mp hslash with heq | hslash
    · exact absurd heq (by decide)
    · exact notMem_of_mem_fields rfl (by decide) hfield hslash
  have hiat : '/' ∉ id.iatText.toList := by
    intro hmem
    rcases mem_iatText hmem with hdigit | hmark
    · exact absurd hdigit (by decide)
    · exact absurd hmark (by decide)
  refine ⟨_, (toList_text id).trans (List.append_assoc _ _ _), ?_⟩
  simp [hfields, hiat]

theorem slash_notMem_text {id : TestId} (h : '/' ∉ id.prefixText.toList) :
    '/' ∉ id.text.toList := by
  obtain ⟨tail, htext, htail⟩ := exists_text_tail id
  rw [htext]
  simp [h, htail]

/-- The text tells the pieces of an id. -/
theorem pieces_of_text_eq {a b : TestId} (h : a.text = b.text) :
    a.fields.reverse ++ (a.prefixText.toList.splitOn '-').reverse =
      b.fields.reverse ++ (b.prefixText.toList.splitOn '-').reverse ∧ a.iatText = b.iatText := by
  have hlist := congrArg String.toList h
  rw [toList_text, toList_text] at hlist
  have hsplit := congrArg (splitLast? "-iat".toList) hlist
  rw [splitLast?_iat _ (splitLast?_eq_none (by decide) (t_notMem_iatText a)),
    splitLast?_iat _ (splitLast?_eq_none (by decide) (t_notMem_iatText b)),
    Option.some.injEq, Prod.mk.injEq] at hsplit
  refine ⟨?_, String.toList_inj.mp hsplit.2⟩
  rw [← reverse_splitWhere_text, ← reverse_splitWhere_text, hsplit.1]

theorem fields_reverse (id : TestId) : id.fields.reverse =
    fieldChars "wr" id.writeRatio :: fieldChars "nf" id.filesPerClient ::
      fieldChars "rs" id.recordSize :: fieldChars "bs" id.batchSize ::
      (id.perMachineFields ++ [fieldChars "nc" id.numClients]) := by
  unfold fields perMachineFields
  cases id.system <;> simp

theorem fieldChars_ne {tag tag' : String} (h : tag.toList.head? ≠ tag'.toList.head?)
    (htag : tag.toList ≠ []) (htag' : tag'.toList ≠ []) (m n : ℕ) :
    fieldChars tag m ≠ fieldChars tag' n := by
  intro heq
  have hhead := congrArg List.head? heq
  unfold fieldChars at hhead
  rw [List.head?_append_of_ne_nil _ htag, List.head?_append_of_ne_nil _ htag'] at hhead
  exact h hhead

/-- The last fields of an id in front of the prefix tell the system. -/
theorem machine_fields_inj {a b : TestId} {as bs : List (List Char)}
    (h : a.perMachineFields ++ fieldChars "nc" a.numClients :: as =
      b.perMachineFields ++ fieldChars "nc" b.numClients :: bs) :
    a.system = b.system ∧ a.numClients = b.numClients ∧
      (a.system = .btrdb → a.clientsPerMachine = b.clientsPerMachine) ∧ as = bs := by
  have hne : ∀ m n, fieldChars "nc" m ≠ fieldChars "cpm" n :=
    fieldChars_ne (by decide) (by decide) (by decide)
  unfold perMachineFields at h
  cases ha : a.system <;> cases hb : b.system <;>
    simp only [ha, hb, List.nil_append, List.singleton_append, List.cons.injEq] at h
  · exact ⟨rfl, fieldChars_injective h.1, nofun, h.2⟩
  · exact absurd h.1 (hne _ _)
  · exact absurd h.1.symm (hne _ _)
  · exact ⟨rfl, fieldChars_injective h.2.1, fun _ => fieldChars_injective h.1, h.2.2⟩

/-- The text of an id tells everything about it but two things: the clients of a machine when the
text does not show them, and the digits of the inter-arrival time that are cut off. -/
theorem text_eq_iff {a b : TestId} : a.text = b.text ↔
    a.system = b.system ∧ a.prefixText = b.prefixText ∧ a.numClients = b.numClients ∧
      (a.system = .btrdb → a.clientsPerMachine = b.clientsPerMachine) ∧
      a.batchSize = b.batchSize ∧ a.recordSize = b.recordSize ∧
      a.filesPerClient = b.filesPerClient ∧ a.writeRatio = b.writeRatio ∧
      a.iatText = b.iatText := by
  constructor
  · intro h
    obtain ⟨hpieces, hiat⟩ := pieces_of_text_eq h
    simp only [fields_reverse, List.cons_append, List.append_assoc, List.cons.injEq,
      List.nil_append] at hpieces
    obtain ⟨hwr, hnf, hrs, hbs, hmachine⟩ := hpieces
    obtain ⟨hsystem, hnc, hcpm, hstart⟩ := machine_fields_inj hmachine
    have hjoin := congrArg ['-'].intercalate (List.reverse_injective hstart)
    rw [List.intercalate_splitOn, List.intercalate_splitOn] at hjoin
    exact ⟨hsystem, String.toList_inj.mp hjoin, hnc, hcpm, fieldChars_injective hbs,
      fieldChars_injective hrs, fieldChars_injective hnf, fieldChars_injective hwr, hiat⟩
  · rintro ⟨hsystem, hstart, hnc, hcpm, hbs, hrs, hnf, hwr, hiat⟩
    have hmachine : a.perMachineText = b.perMachineText := by
      unfold perMachineText
      rw [← hsystem]
      cases ha : a.system with
      | kawkab => rfl
      | btrdb => rw [hcpm ha]
    rw [text, text, hstart, hnc, hmachine, hbs, hrs, hnf, hwr, hiat]

end TestId

end ClusterBench
