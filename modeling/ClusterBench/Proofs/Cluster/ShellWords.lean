import ClusterBench.Proofs.TestId.Text
import ClusterBench.Cluster.Machine

/-!
# Words of a shell

A command for a remote machine goes through two shells: the local one splits the command line of the
secure shell into words, and the last word is what the remote shell gets. It stands between double
quotes, where a quote, a dollar, a backquote and some backslashes keep their meaning. The remote
shell gets the command as it is exactly if it has none of them.
-/

namespace ClusterBench

namespace ShellWords

def isActive (c : Char) : Bool := c ∈ ['"', '$', '`', '\\']

/-- The characters that stand for more than themselves outside of quotes: they separate words or
commands, quote, expand to something or begin a comment. -/
def isSpecial (c : Char) : Bool :=
  isActive c || c ∈ [' ', '\t', '\n', '\x27', '|', '&', ';', '<', '>', '(', ')', '*', '?', '[', ']',
    '#', '~', '\x7b', '\x7d', '!']

inductive Reader
  | between
  | word (chars : List Char)
  | quoted (chars : List Char)

/-- The words of a command line that is one simple command of plain and double-quoted parts, in
which nothing is expanded; nothing for another one. -/
def split : Reader → List Char → Option (List (List Char))
  | .between, [] => some []
  | .word w, [] => some [w]
  | .quoted _, [] => none
  | .between, c :: cs =>
    if c = ' ' ∨ c = '\t' then split .between cs
    else if c = '"' then split (.quoted []) cs
    else if isSpecial c then none
    else split (.word [c]) cs
  | .word w, c :: cs =>
    if c = ' ' ∨ c = '\t' then (split .between cs).map (w :: ·)
    else if c = '"' then split (.quoted w) cs
    else if isSpecial c then none
    else split (.word (w ++ [c])) cs
  | .quoted w, '"' :: cs => split (.word w) cs
  | .quoted w, '\\' :: c :: cs =>
    split (.quoted (if isActive c then w ++ [c] else w ++ ['\\', c])) cs
  | .quoted w, c :: cs => if c = '$' ∨ c = '`' then none else split (.quoted (w ++ [c])) cs

def words (line : String) : Option (List String) :=
  (split .between line.toList).map (·.map String.ofList)

def Plain (cs : List Char) : Prop := cs ≠ [] ∧ ∀ c ∈ cs, isSpecial c = false

instance (cs : List Char) : Decidable (Plain cs) := inferInstanceAs (Decidable (_ ∧ _))

theorem ordinary {c : Char} (h : isSpecial c = false) : ¬(c = ' ' ∨ c = '\t') ∧ c ≠ '"' := by
  refine ⟨?_, ?_⟩
  · rintro (rfl | rfl) <;> simp [isSpecial] at h
  · rintro rfl
    simp [isSpecial, isActive] at h

theorem split_word_append (w : List Char) {cs rest : List Char}
    (h : ∀ c ∈ cs, isSpecial c = false) :
    split (.word w) (cs ++ rest) = split (.word (w ++ cs)) rest := by
  induction cs generalizing w with
  | nil => rw [List.nil_append, List.append_nil]
  | cons c cs ih =>
    rw [List.forall_mem_cons] at h
    obtain ⟨hblank, hquote⟩ := ordinary h.1
    rw [List.cons_append, split, if_neg hblank, if_neg hquote, if_neg (by simp [h.1]), ih _ h.2,
      List.append_assoc, List.singleton_append]

/-- A plain word in front of a blank is the first word. -/
theorem split_plain {w : List Char} (h : Plain w) (rest : List Char) :
    split .between (w ++ ' ' :: rest) = (split .between rest).map (w :: ·) := by
  obtain ⟨c, cs, rfl⟩ := List.exists_cons_of_ne_nil h.1
  have hall := List.forall_mem_cons.mp h.2
  obtain ⟨hblank, hquote⟩ := ordinary hall.1
  rw [List.cons_append, split, if_neg hblank, if_neg hquote, if_neg (by simp [hall.1]),
    split_word_append _ hall.2, split, if_pos (Or.inl rfl)]
  rfl

/-- A text that double quotes take as it is: without quotes, dollars and backquotes, and without a
backslash in front of another one or at the end. -/
def Literal (cs : List Char) : Prop :=
  (∀ c ∈ cs, c ≠ '"' ∧ c ≠ '$' ∧ c ≠ '`') ∧ ¬['\\', '\\'] <:+: cs ++ ['\\']

instance (cs : List Char) : Decidable (Literal cs) := inferInstanceAs (Decidable (_ ∧ _))

theorem literal_nil : Literal [] := by
  refine ⟨by simp, fun h => ?_⟩
  simpa using h.length_le

theorem literal_cons {c : Char} (h : isActive c = false) {cs : List Char} :
    Literal (c :: cs) ↔ Literal cs := by
  obtain ⟨hquote, hdollar, hback, hslash⟩ : c ≠ '"' ∧ c ≠ '$' ∧ c ≠ '`' ∧ c ≠ '\\' := by
    simpa [isActive] using h
  have hstart : ¬['\\', '\\'] <+: c :: (cs ++ ['\\']) := by
    rw [List.cons_prefix_cons]
    exact fun hprefix => hslash hprefix.1.symm
  unfold Literal
  rw [List.forall_mem_cons, List.cons_append, List.infix_cons_iff]
  simp [hstart, hquote, hdollar, hback]

theorem literal_backslash_cons {c : Char} (h : isActive c = false) {cs : List Char} :
    Literal ('\\' :: c :: cs) ↔ Literal cs := by
  have hslash : c ≠ '\\' := by
    rintro rfl
    simp [isActive] at h
  have hstart : ¬['\\', '\\'] <+: '\\' :: (c :: cs ++ ['\\']) := by
    rw [List.cons_prefix_cons, List.cons_append, List.cons_prefix_cons]
    exact fun hprefix => hslash hprefix.2.1.symm
  have hinfix : ['\\', '\\'] <:+: '\\' :: c :: cs ++ ['\\'] ↔
      ['\\', '\\'] <:+: c :: cs ++ ['\\'] := by
    rw [List.cons_append, List.infix_cons_iff, or_iff_right hstart]
  refine Iff.trans ?_ (literal_cons h)
  rw [Literal, Literal, hinfix, List.forall_mem_cons]
  simp only [ne_eq, and_congr_left_iff]
  intro _
  exact and_iff_right (by decide)

theorem not_literal_cons {c : Char} (h : c = '"' ∨ c = '$' ∨ c = '`') (cs : List Char) :
    ¬Literal (c :: cs) := by
  rintro ⟨hall, -⟩
  obtain ⟨hquote, hdollar, hback⟩ := hall c List.mem_cons_self
  rcases h with h | h | h
  · exact hquote h
  · exact hdollar h
  · exact hback h

theorem not_literal_backslash_cons {c : Char} (h : isActive c) (cs : List Char) :
    ¬Literal ('\\' :: c :: cs) := by
  rintro ⟨hall, hinfix⟩
  obtain ⟨hquote, hdollar, hback⟩ := hall c (by simp)
  obtain rfl : c = '\\' := by simpa [isActive, hquote, hdollar, hback] using h
  exact hinfix ⟨[], cs ++ ['\\'], rfl⟩

theorem not_literal_backslash : ¬Literal ['\\'] := by
  rintro ⟨-, hinfix⟩
  exact hinfix ⟨[], [], rfl⟩

theorem split_quoted_cons {c : Char} (h : isActive c = false) (w cs : List Char) :
    split (.quoted w) (c :: cs) = split (.quoted (w ++ [c])) cs := by
  obtain ⟨hquote, hdollar, hback, hslash⟩ : c ≠ '"' ∧ c ≠ '$' ∧ c ≠ '`' ∧ c ≠ '\\' := by
    simpa [isActive] using h
  rw [split.eq_8 w c cs hquote fun d rest hslash' _ => hslash hslash', if_neg]
  simp [hdollar, hback]

theorem split_quoted_expansion {c : Char} (h : c = '$' ∨ c = '`') (w cs : List Char) :
    split (.quoted w) (c :: cs) = none := by
  rcases h with rfl | rfl <;> simp [split]

def Reader.chars : Reader → List Char
  | between => []
  | word w | quoted w => w

/-- The least number of quotes that are still to be dropped. -/
def Reader.owes (cs : List Char) : Reader → ℕ
  | between | word _ => if '"' ∈ cs then 1 else 0
  | quoted _ => 1

@[simp] theorem Reader.owes_quoted (w cs : List Char) : (quoted w).owes cs = 1 := rfl

theorem Reader.owes_le_one (reader : Reader) (cs : List Char) : reader.owes cs ≤ 1 := by
  cases reader with
  | between | word w =>
    unfold owes
    split_ifs <;> simp
  | quoted w => exact le_rfl

theorem Reader.owes_cons {c : Char} (h : c ≠ '"') (reader : Reader) (cs : List Char) :
    reader.owes (c :: cs) = reader.owes cs := by
  cases reader <;> simp [owes, h.symm]

/-- Words are made of the characters that are read, each at most once, and of no quote that has a
meaning. -/
theorem length_of_split (reader : Reader) (cs : List Char) {words : List (List Char)}
    (h : split reader cs = some words) :
    words.flatten.length + reader.owes cs ≤ reader.chars.length + cs.length := by
  have hone := Reader.owes_le_one
  fun_induction split reader cs generalizing words with
  | case1 | case2 =>
    cases h
    simp [Reader.owes, Reader.chars]
  | case3 | case6 | case10 | case14 => cases h
  -- The first character is dropped.
  | case4 c cs _ ih =>
    have hrest := ih h
    have hfirst := hone .between (c :: cs)
    rw [List.length_cons]
    omega
  | case5 cs _ ih =>
    have hrest := ih h
    have hfirst := hone .between ('"' :: cs)
    simp only [Reader.chars, Reader.owes_quoted, List.length_cons, List.length_nil] at hrest ⊢
    omega
  | case8 w c cs _ ih =>
    obtain ⟨rest, hsplit, rfl⟩ := Option.map_eq_some_iff.mp h
    have hrest := ih hsplit
    have hfirst := hone (.word w) (c :: cs)
    simp only [Reader.chars, List.length_cons, List.length_nil, List.flatten_cons,
      List.length_append] at hrest ⊢
    omega
  | case9 w cs _ ih =>
    have hrest := ih h
    have hfirst := hone (.word w) ('"' :: cs)
    simp only [Reader.chars, Reader.owes_quoted, List.length_cons] at hrest ⊢
    omega
  | case12 w cs ih =>
    have hrest := ih h
    simp only [Reader.chars, Reader.owes_quoted, List.length_cons] at hrest ⊢
    omega
  -- It goes into a word, with the backslash in front of it or without it.
  | case7 c cs _ hquote _ ih | case11 w c cs _ hquote _ ih =>
    have hrest := ih h
    rw [Reader.owes_cons hquote]
    simp only [Reader.chars, Reader.owes, List.length_cons, List.length_append,
      List.length_nil] at hrest ⊢
    omega
  | case13 w c cs ih =>
    have hrest := ih h
    have hword : (if isActive c then w ++ [c] else w ++ ['\\', c]).length ≤ w.length + 2 := by
      split_ifs <;> simp
    simp only [Reader.chars, Reader.owes_quoted, List.length_cons] at hrest ⊢
    omega
  | case15 w c cs _ _ _ ih =>
    have hrest := ih h
    simp only [Reader.chars, Reader.owes_quoted, List.length_cons, List.length_append,
      List.length_nil] at hrest ⊢
    omega

theorem split_quoted_backslash (w : List Char) (c : Char) (cs : List Char) :
    split (.quoted w) ('\\' :: c :: cs) =
      split (.quoted (if isActive c then w ++ [c] else w ++ ['\\', c])) cs := rfl

/-- A quote inside is dropped, and so is one behind it. -/
theorem split_inner_quote_ne (w cs : List Char) :
    split (.quoted w) ('"' :: cs ++ ['"']) ≠ some [w ++ '"' :: cs] := by
  intro h
  have hlength := length_of_split (.word w) (cs ++ ['"']) h
  simp [Reader.chars, Reader.owes] at hlength

/-- A backslash in front of an active character is dropped, and so is the last quote. -/
theorem split_inner_backslash_ne {c : Char} (h : isActive c) (w cs : List Char) :
    split (.quoted w) ('\\' :: c :: cs ++ ['"']) ≠ some [w ++ '\\' :: c :: cs] := by
  intro hsplit
  rw [List.cons_append, List.cons_append, split_quoted_backslash, if_pos h] at hsplit
  have hlength := length_of_split _ _ hsplit
  simp [Reader.chars] at hlength
  omega

/-- Between quotes a text is a word as it is exactly if it is literal: any other one loses a
character, is cut, or is expanded. -/
theorem split_quoted_iff (w cs : List Char) :
    split (.quoted w) (cs ++ ['"']) = some [w ++ cs] ↔ Literal cs := by
  induction hn : cs.length using Nat.strong_induction_on generalizing w cs with
  | _ n ih =>
    subst hn
    rcases cs with _ | ⟨c, cs⟩
    · exact iff_of_true (by rw [List.append_nil]; rfl) literal_nil
    rcases Bool.eq_false_or_eq_true (isActive c) with hactive | hactive
    · have hcases : c = '"' ∨ (c = '$' ∨ c = '`') ∨ c = '\\' := by
        simpa [isActive, or_assoc] using hactive
      rcases hcases with rfl | hexpansion | rfl
      · exact iff_of_false (split_inner_quote_ne w cs) (not_literal_cons (Or.inl rfl) cs)
      · refine iff_of_false ?_ (not_literal_cons (Or.inr hexpansion) cs)
        rw [List.cons_append, split_quoted_expansion hexpansion]
        exact nofun
      · rcases cs with _ | ⟨d, cs⟩
        · exact iff_of_false nofun not_literal_backslash
        rcases Bool.eq_false_or_eq_true (isActive d) with hsecond | hsecond
        · exact iff_of_false (split_inner_backslash_ne hsecond w cs)
            (not_literal_backslash_cons hsecond cs)
        · have hrest := ih cs.length (by simp) (w ++ ['\\', d]) cs rfl
          rw [List.append_assoc] at hrest
          rw [literal_backslash_cons hsecond, ← hrest, List.cons_append, List.cons_append,
            split_quoted_backslash, if_neg (by simp [hsecond])]
          rfl
    · have hrest := ih cs.length (by simp) (w ++ [c]) cs rfl
      rw [List.append_assoc] at hrest
      rw [literal_cons hactive, ← hrest, List.cons_append, split_quoted_cons hactive]
      rfl

def protect (cs : List Char) : List Char :=
  cs.flatMap fun c => if isActive c then ['\\', c] else [c]

theorem split_quoted_protect (w cs : List Char) :
    split (.quoted w) (protect cs ++ ['"']) = some [w ++ cs] := by
  induction cs generalizing w with
  | nil => rw [List.append_nil]; rfl
  | cons c cs ih =>
    have hrest := ih (w ++ [c])
    rw [List.append_assoc, List.singleton_append] at hrest
    rw [← hrest, protect, List.flatMap_cons]
    by_cases hactive : isActive c
    · rw [if_pos hactive]
      change split (.quoted (if isActive c then w ++ [c] else w ++ ['\\', c])) _ = _
      rw [if_pos hactive]
      rfl
    · rw [if_neg hactive]
      exact split_quoted_cons (Bool.eq_false_iff.mpr hactive) w _

theorem literal_append {as : List Char} (h : ∀ c ∈ as, isActive c = false) (cs : List Char) :
    Literal (as ++ cs) ↔ Literal cs := by
  induction as with
  | nil => rfl
  | cons a as ih =>
    rw [List.forall_mem_cons] at h
    rw [List.cons_append, literal_cons h.1, ih h.2]

theorem protect_append {as : List Char} (h : ∀ c ∈ as, isActive c = false) (cs : List Char) :
    protect (as ++ cs) = as ++ protect cs := by
  have hkeep : protect as = as := by
    rw [protect, List.flatMap_congr fun c hc => if_neg (Bool.eq_false_iff.mp (h c hc))]
    exact List.flatMap_singleton' as
  rw [protect, List.flatMap_append]
  exact congrArg (· ++ protect cs) hkeep

theorem words_eq_some_iff {line : String} {parts : List String} :
    words line = some parts ↔ split .between line.toList = some (parts.map String.toList) := by
  rw [words, Option.map_eq_some_iff]
  constructor
  · rintro ⟨texts, hsplit, rfl⟩
    rw [hsplit, List.map_map]
    simp
  · intro hsplit
    refine ⟨_, hsplit, ?_⟩
    rw [List.map_map]
    simp

theorem split_plains {parts : List (List Char)} (h : ∀ w ∈ parts, Plain w) (rest : List Char) :
    split .between (parts.flatMap (· ++ [' ']) ++ rest) =
      (split .between rest).map (parts ++ ·) := by
  induction parts with
  | nil => simp
  | cons w parts ih =>
    rw [List.forall_mem_cons] at h
    rw [List.flatMap_cons, List.append_assoc, List.append_assoc, List.singleton_append,
      split_plain h.1, ih h.2, Option.map_map]
    rfl

/-- Behind plain words, a text between double quotes is the last word exactly if it is literal. -/
theorem split_plains_quoted_iff {parts : List (List Char)} (h : ∀ w ∈ parts, Plain w)
    (cs : List Char) :
    split .between (parts.flatMap (· ++ [' ']) ++ '"' :: (cs ++ ['"'])) = some (parts ++ [cs]) ↔
      Literal cs := by
  rw [split_plains h, ← split_quoted_iff [] cs, List.nil_append, Option.map_eq_some_iff]
  change (∃ rest, split (.quoted []) _ = some rest ∧ _) ↔ _
  simp

end ShellWords

namespace Machine

open ShellWords

variable {host username : String} {keyFile : Option String}

def sshWords (host username : String) (keyFile : Option String) : List String :=
  ["ssh", "-4"] ++ (match keyFile with | some file => ["-i", file] | none => []) ++
    ["-o", "StrictHostKeyChecking=no", username ++ "@" ++ host]

def remoteCommand (command : String) (asRoot : Bool) : String :=
  if asRoot then "sudo " ++ command else command

theorem toList_commandLine (command : String) (asRoot : Bool) :
    ((remote host username keyFile).commandLine command asRoot).toList =
      ((sshWords host username keyFile).map String.toList).flatMap (· ++ [' ']) ++
        '"' :: ((remoteCommand command asRoot).toList ++ ['"']) := by
  cases keyFile <;> simp [commandLine, sshWords, remoteCommand, String.toList_append]

theorem plain_sshWords (hhost : Plain host.toList) (huser : Plain username.toList)
    (hkey : ∀ file ∈ keyFile, Plain file.toList) :
    ∀ w ∈ (sshWords host username keyFile).map String.toList, Plain w := by
  have haddress : Plain (username ++ "@" ++ host).toList := by
    refine ⟨by simp, fun c hc => ?_⟩
    rw [String.toList_append, String.toList_append, List.mem_append, List.mem_append] at hc
    rcases hc with (hc | hc) | hc
    · exact huser.2 c hc
    · obtain rfl : c = '@' := List.mem_singleton.mp hc
      rfl
    · exact hhost.2 c hc
  have hoptions : Plain "ssh".toList ∧ Plain "-4".toList ∧ Plain "-i".toList ∧ Plain "-o".toList ∧
      Plain "StrictHostKeyChecking=no".toList := by simp [Plain, isSpecial, isActive]
  cases keyFile <;> simp_all [sshWords]

/-- The remote shell gets the command as it is exactly if the command holds no character that has
a meaning between double quotes; a command with a backslash in front of every such character is
one that it gets without them. -/
theorem words_commandLine_iff (hhost : Plain host.toList) (huser : Plain username.toList)
    (hkey : ∀ file ∈ keyFile, Plain file.toList) (command : String) (asRoot : Bool) :
    (words ((remote host username keyFile).commandLine command asRoot) =
        some (sshWords host username keyFile ++ [remoteCommand command asRoot]) ↔
      Literal command.toList) ∧
    words ((remote host username keyFile).commandLine
        (String.ofList (protect command.toList)) asRoot) =
      some (sshWords host username keyFile ++ [remoteCommand command asRoot]) := by
  have hplain := plain_sshWords hhost huser hkey
  have hsudo : ∀ c ∈ "sudo ".toList, isActive c = false := by simp [isActive]
  have hliteral : Literal (remoteCommand command asRoot).toList ↔ Literal command.toList := by
    cases asRoot
    · rfl
    · rw [remoteCommand, if_pos rfl, String.toList_append]
      exact literal_append hsudo _
  have hprotect : (remoteCommand (String.ofList (protect command.toList)) asRoot).toList =
      protect (remoteCommand command asRoot).toList := by
    cases asRoot
    · exact String.toList_ofList
    · rw [remoteCommand, remoteCommand, if_pos rfl, if_pos rfl, String.toList_append,
        String.toList_append, protect_append hsudo]
      exact congrArg _ String.toList_ofList
  constructor
  · rw [words_eq_some_iff, toList_commandLine, List.map_append, List.map_singleton,
      split_plains_quoted_iff hplain, hliteral]
  · rw [words_eq_some_iff, toList_commandLine, hprotect, List.map_append, List.map_singleton,
      split_plains hplain]
    change (split (.quoted []) _).map _ = _
    rw [split_quoted_protect]
    rfl

/-- The local shell expands a variable that was meant for the remote one, unless it is protected. -/
theorem words_commandLine_variable :
    Plain "h".toList ∧ Plain "kawkab".toList ∧ Plain "key.pem".toList ∧
      words ((remote "h" "kawkab" (some "key.pem")).commandLine "echo $HOME" false) ≠
        some (sshWords "h" "kawkab" (some "key.pem") ++ ["echo $HOME"]) ∧
      words ((remote "h" "kawkab" (some "key.pem")).commandLine "echo \\$HOME" false) =
        some (sshWords "h" "kawkab" (some "key.pem") ++ ["echo $HOME"]) := by
  obtain ⟨hhost, huser, hkey⟩ : Plain "h".toList ∧ Plain "kawkab".toList ∧
      Plain "key.pem".toList := by simp [Plain, isSpecial, isActive]
  obtain ⟨hiff, hprotected⟩ := words_commandLine_iff hhost huser
    (fun file hfile => Option.some.inj hfile ▸ hkey) "echo $HOME" false
  refine ⟨hhost, huser, hkey, fun h => ?_, ?_⟩
  · have hliteral := hiff.mp h
    simp [Literal] at hliteral
  · simpa [protect, isActive, remoteCommand] using hprotected

end Machine

end ClusterBench
