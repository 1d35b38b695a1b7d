import ClusterBench.Json.Value
import ClusterBench.Proofs.Binary64.ReadBack
import ClusterBench.Proofs.Json.Rendering

/-!
# Scanning texts and numbers that were written

A quoted text is scanned as the same text, whatever characters it holds. A finite double is scanned
as some number, and one that is not finite as null.
-/

namespace ClusterBench.Json

theorem toList_unitEscape (c : Char) : (unitEscape c).toList = '\\' :: 'u' ::
    (List.replicate (4 - (Nat.toDigits 16 c.toNat).length) '0' ++ Nat.toDigits 16 c.toNat) := by
  simp [unitEscape, padZeros]

/-- A control character is escaped by four digits. -/
theorem hexUnit?_unitEscape {n : ℕ} (h : n < 32) : ∃ a b c d,
    List.replicate (4 - (Nat.toDigits 16 n).length) '0' ++ Nat.toDigits 16 n = [a, b, c, d] ∧
      hexUnit? (some a) (some b) (some c) (some d) = some n := by
  interval_cases n <;> exact ⟨_, _, _, _, rfl, rfl⟩

/-- Every character is written as one glyph that stands for it, escaped or not. -/
theorem exists_glyph (c : Char) : ∃ glyph : Glyph, glyph.chars = (writtenChar c).toList ∧
    ∀ chars, glyph.append ⟨chars, none, false⟩ = ⟨c :: chars, none, false⟩ := by
  unfold writtenChar
  split_ifs with hquote hslash hline hreturn htab hback hfeed hcontrol
  · subst hquote
    exact ⟨.escape '"' '"' rfl, rfl, fun _ => rfl⟩
  · subst hslash
    exact ⟨.escape '\\' '\\' rfl, rfl, fun _ => rfl⟩
  · subst hline
    exact ⟨.escape 'n' '\n' rfl, rfl, fun _ => rfl⟩
  · subst hreturn
    exact ⟨.escape 'r' '\r' rfl, rfl, fun _ => rfl⟩
  · subst htab
    exact ⟨.escape 't' '\t' rfl, rfl, fun _ => rfl⟩
  · subst hback
    exact ⟨.escape 'b' '\x08' rfl, rfl, fun _ => rfl⟩
  · subst hfeed
    exact ⟨.escape 'f' '\x0c' rfl, rfl, fun _ => rfl⟩
  · have hlt : c.toNat < 32 := hcontrol
    obtain ⟨a, b, d, e, hdigits, hunit⟩ := hexUnit?_unitEscape hlt
    refine ⟨.unit a b d e c.toNat hunit, ?_, fun chars => ?_⟩
    · rw [toList_unitEscape, hdigits]
      rfl
    · have hhigh : ¬(0xd800 ≤ c.toNat) := by omega
      have hlow : ¬(0xdc00 ≤ c.toNat) := by omega
      simp [Glyph.append, Draft.pushUnit, Draft.push, hhigh, hlow]
  · refine ⟨.plain c ⟨hquote, hslash, hcontrol⟩, ?_, fun _ => rfl⟩
    simp [Glyph.chars, Char.toString]

theorem exists_glyphs (cs : List Char) : ∃ glyphs : List Glyph,
    glyphs.flatMap Glyph.chars = (String.join (cs.map writtenChar)).toList ∧
      ∀ chars, glyphs.foldl Glyph.append ⟨chars, none, false⟩ =
        ⟨cs.reverse ++ chars, none, false⟩ := by
  induction cs with
  | nil => exact ⟨[], rfl, fun _ => rfl⟩
  | cons c cs ih =>
    obtain ⟨glyph, hglyph, hc⟩ := exists_glyph c
    obtain ⟨glyphs, hglyphs, hcs⟩ := ih
    refine ⟨glyph :: glyphs, ?_, fun chars => ?_⟩
    · rw [List.flatMap_cons, hglyph, hglyphs, List.map_cons, String.join_cons,
        String.toList_append]
    · rw [List.foldl_cons, hc, hcs, List.reverse_cons, List.append_assoc,
        List.singleton_append]

/-- A quoted text stands for what was written. -/
theorem exists_quoted (text : String) : ∃ glyphs : List Glyph,
    quotedChars glyphs = (writtenText text).toList ∧ textOf glyphs = .ok text := by
  obtain ⟨glyphs, hchars, happend⟩ := exists_glyphs text.toList
  refine ⟨glyphs, ?_, ?_⟩
  · rw [quotedChars, hchars, writtenText, String.toList_append, String.toList_append]
    rfl
  · rw [textOf, happend]
    simp [Draft.close]

/-- The digits of a number begin with a zero only if it is zero. -/
theorem head?_toDigits {n : ℕ} (h : (Nat.toDigits 10 n).head? = some '0') : n = 0 := by
  induction n using Nat.strong_induction_on with
  | _ n ih =>
    by_cases hlt : n < 10
    · rw [Nat.toDigits_of_lt_base hlt] at h
      interval_cases n <;> first | rfl | cases h
    · rw [Nat.toDigits_of_base_le (by norm_num) (by omega),
        List.head?_append_of_ne_nil _ Nat.toDigits_ne_nil] at h
      have hzero := ih (n / 10) (by omega) h
      omega

theorem toDigits_ne_zero_cons (n : ℕ) (c : Char) (cs : List Char) :
    Nat.toDigits 10 n ≠ '0' :: c :: cs := by
  intro hdigits
  have hzero : n = 0 := head?_toDigits (by rw [hdigits]; rfl)
  subst hzero
  cases hdigits

inductive Mantissa : List Char → Prop
  | whole (n : ℕ) : Mantissa (Nat.toDigits 10 n)
  | pointed (n : ℕ) {decimals : List Char} (h : AllDigits decimals) (hne : decimals ≠ []) :
      Mantissa (Nat.toDigits 10 n ++ '.' :: decimals)

inductive Numeric : List Char → Prop
  | plain {cs : List Char} (h : Mantissa cs) : Numeric cs
  | power {cs : List Char} (h : Mantissa cs) (negative : Bool) (n : ℕ) :
      Numeric (cs ++ 'e' :: (if negative then '-' else '+') :: Nat.toDigits 10 n)

theorem mantissa_placesText (places n : ℕ) : Mantissa (placesText places n).toList := by
  by_cases h : places = 0
  · rw [h, placesText_zero, toList_digitsText]
    exact .whole n
  · rw [toList_placesText h]
    refine .pointed _ (allDigits_decimalChars places n) fun hnil => h ?_
    rw [← length_decimalChars h n, hnil, List.length_nil]

theorem mantissa_positional (d : Decimal) : Mantissa
    (if 0 ≤ d.exponent then d.positional ++ ".0" else d.positional).toList := by
  obtain ⟨digits, e | e⟩ := d
  · have hwhole : 0 ≤ Int.ofNat e := Int.natCast_nonneg e
    dsimp only
    rw [if_pos hwhole, String.toList_append]
    change Mantissa ((digitsText _).toList ++ '.' :: ['0'])
    rw [toList_digitsText]
    exact .pointed _ (fun c hc => by rw [List.mem_singleton.mp hc]; rfl) (by simp)
  · have hfraction : ¬0 ≤ Int.negSucc e := not_le.mpr (Int.negSucc_lt_zero e)
    dsimp only
    rw [if_neg hfraction]
    exact mantissa_placesText (e + 1) digits

theorem numeric_scientific (d : Decimal) (negative : Bool) (n : ℕ) : Numeric
    (d.mantissa ++ "e" ++ (if negative then "-" else "+") ++ digitsText n).toList := by
  have h := Numeric.power (mantissa_placesText (digitCount d.digits - 1) d.digits) negative n
  cases negative <;> simpa [Decimal.mantissa] using h

/-- A finite double is written as a sign and a numeral. -/
theorem toList_jsonText {x : Binary64} (h : x.isFinite) :
    ∃ cs, Numeric cs ∧ x.jsonText.toList = signChars x.negative ++ cs := by
  unfold Binary64.jsonText
  rw [if_pos h]
  dsimp only
  rw [String.toList_append, Binary64.toList_signText]
  refine ⟨_, ?_, rfl⟩
  by_cases hzero : x.shortest.digits = 0
  · rw [if_pos hzero]
    exact .plain (.pointed 0 (allDigits_replicate_zero 1) (by simp))
  rw [if_neg hzero]
  by_cases hexponent : -5 ≤ x.shortest.leading ∧ x.shortest.leading ≤ 15
  · rw [if_pos hexponent]
    exact .plain (mantissa_positional _)
  rw [if_neg hexponent]
  by_cases hnegative : x.shortest.leading < 0
  · rw [if_pos hnegative]
    exact numeric_scientific _ true _
  · rw [if_neg hnegative]
    exact numeric_scientific _ false _

/-- Such a numeral is one of JSON. -/
theorem Mantissa.exists_numberText {cs : List Char} (h : Mantissa cs) (negative : Bool)
    (power : Option PowerText) : ∃ n : NumberText, n.negative = negative ∧
      n.magnitude = cs ++ NumberText.powerChars power := by
  cases h with
  | whole k =>
    exact ⟨⟨negative, Nat.toDigits 10 k, [], power, Nat.toDigits_ne_nil, allDigits_toDigits k,
      toDigits_ne_zero_cons k, List.forall_mem_nil _⟩, rfl, rfl⟩
  | @pointed k decimals h hne =>
    refine ⟨⟨negative, Nat.toDigits 10 k, decimals, power, Nat.toDigits_ne_nil,
      allDigits_toDigits k, toDigits_ne_zero_cons k, h⟩, rfl, ?_⟩
    obtain ⟨c, digits, rfl⟩ := List.exists_cons_of_ne_nil hne
    simp [NumberText.magnitude, NumberText.pointChars]

theorem Numeric.exists_numberText {cs : List Char} (h : Numeric cs) (negative : Bool) :
    ∃ n : NumberText, n.chars = signChars negative ++ cs := by
  cases h with
  | plain h =>
    obtain ⟨n, hnegative, hn⟩ := h.exists_numberText negative none
    refine ⟨n, ?_⟩
    rw [NumberText.chars, hnegative, hn, NumberText.powerChars, List.append_nil]
  | power h minus k =>
    let power : PowerText := ⟨'e', [if minus then '-' else '+'], Nat.toDigits 10 k, .inl rfl,
      by cases minus <;> simp, Nat.toDigits_ne_nil, allDigits_toDigits k⟩
    obtain ⟨n, hnegative, hn⟩ := h.exists_numberText negative (some power)
    refine ⟨n, ?_⟩
    rw [NumberText.chars, hnegative, hn]
    rfl

def realNode (x : Binary64) : Node := (scan (symbols x.jsonText)).1

/-- What is no number, or no finite one, is null. -/
theorem realNode_of_not_isFinite {x : Binary64} (h : ¬x.isFinite) : realNode x = .null := by
  rw [realNode, Binary64.jsonText, if_neg h]
  rfl

/-- A double is written as a number or as null. -/
theorem exists_rendering_jsonText (x : Binary64) :
    ∃ t : Rendering, t.chars false = x.jsonText.toList ∧ t.node = realNode x := by
  obtain ⟨t, ht⟩ : ∃ t : Rendering, t.chars false = x.jsonText.toList := by
    by_cases h : x.isFinite
    · obtain ⟨cs, hnumeric, htext⟩ := toList_jsonText h
      obtain ⟨n, hn⟩ := hnumeric.exists_numberText x.negative
      exact ⟨.number n, by rw [Rendering.chars, hn, htext]⟩
    · exact ⟨.null, by rw [Binary64.jsonText, if_neg h]; rfl⟩
  refine ⟨t, ht, ?_⟩
  rw [realNode, symbols, ← ht, t.scan_chars]

theorem scan_jsonText (x : Binary64) : scan (symbols x.jsonText) = (realNode x, []) := by
  obtain ⟨t, ht, hnode⟩ := exists_rendering_jsonText x
  rw [symbols, ← ht, t.scan_chars, hnode]

def wordNode (n : ℕ) : Node := .number ⟨false, ⟨Nat.toDigits 10 n, [], 0⟩, false, false⟩

theorem exists_rendering_digitsText (n : ℕ) :
    ∃ t : Rendering, t.chars false = (digitsText n).toList ∧ t.node = wordNode n := by
  refine ⟨.number ⟨false, Nat.toDigits 10 n, [], none, Nat.toDigits_ne_nil, allDigits_toDigits n,
    toDigits_ne_zero_cons n, List.forall_mem_nil _⟩, ?_, rfl⟩
  rw [Rendering.chars, toList_digitsText]
  simp [NumberText.chars, signChars, NumberText.magnitude, NumberText.pointChars,
    NumberText.powerChars]

end ClusterBench.Json
