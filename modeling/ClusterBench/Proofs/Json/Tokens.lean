import ClusterBench.Json.Decoder
import ClusterBench.Proofs.Binary64.Digits
import ClusterBench.Proofs.Text.Utf8

/-!
# The tokens of JSON

Gaps, quoted texts, numerals and words as they may be written. The scanner passes over what is
written so, and over nothing else.
-/

namespace ClusterBench.Json

structure Gap where
  chars : List Char
  blank : ∀ c ∈ chars, isAsciiBlank c

namespace Gap

def empty : Gap := ⟨[], nofun⟩

def append (a b : Gap) : Gap :=
  ⟨a.chars ++ b.chars, List.forall_mem_append.mpr ⟨a.blank, b.blank⟩⟩

@[simp] theorem chars_append (a b : Gap) : (a.append b).chars = a.chars ++ b.chars := rfl

end Gap

theorem skipBlanks_gap (gap : Gap) (cs : List Symbol) :
    skipBlanks (gap.chars.map some ++ cs) = skipBlanks cs := by
  apply List.dropWhile_append_of_pos
  rw [List.forall_mem_map]
  exact gap.blank

/-- The blanks at the start of a text are a gap. -/
theorem exists_gap (cs : List Char) : ∃ (gap : Gap) (rest : List Char),
    cs = gap.chars ++ rest ∧ skipBlanks (cs.map some) = rest.map some ∧
      ∀ c ∈ rest.head?, isAsciiBlank c = false := by
  refine ⟨⟨cs.takeWhile isAsciiBlank, fun c hc => List.mem_takeWhile_imp hc⟩,
    cs.dropWhile isAsciiBlank, List.takeWhile_append_dropWhile.symm, ?_, ?_⟩
  · rw [skipBlanks, List.dropWhile_map]
    rfl
  · intro c hc
    have hnot := List.head?_dropWhile_not isAsciiBlank cs
    rw [hc] at hnot
    exact hnot

theorem skipBlanks_cons {c : Char} (h : isAsciiBlank c = false) (cs : List Symbol) :
    skipBlanks (some c :: cs) = some c :: cs :=
  List.dropWhile_cons_of_neg (by simpa [isBlankSymbol] using h)

def IsPlain (c : Char) : Prop := c ≠ '"' ∧ c ≠ '\\' ∧ ¬c < ' '

theorem exists_ofNat_of_control {c : Char} (h : c < ' ') : ∃ n < 32, c = Char.ofNat n :=
  ⟨c.toNat, h, (Char.ofNat_toNat c).symm⟩

inductive Glyph
  | plain (c : Char) (h : IsPlain c)
  | escape (c value : Char) (h : escapedChar? c = some value)
  | unit (a b c d : Char) (value : ℕ)
    (h : hexUnit? (some a) (some b) (some c) (some d) = some value)

namespace Glyph

def chars : Glyph → List Char
  | plain c _ => [c]
  | escape c _ _ => ['\\', c]
  | unit a b c d _ _ => ['\\', 'u', a, b, c, d]

def append (draft : Draft) : Glyph → Draft
  | plain c _ => draft.push c
  | escape _ value _ => draft.push value
  | unit _ _ _ _ value _ => draft.pushUnit value

theorem isPlain_of_hexValue? {c : Char} {n : ℕ} (h : hexValue? (some c) = some n) :
    IsPlain c := by
  refine ⟨?_, ?_, fun hcontrol => ?_⟩
  · rintro rfl
    cases h
  · rintro rfl
    cases h
  · obtain ⟨n, hn, rfl⟩ := exists_ofNat_of_control hcontrol
    interval_cases n <;> cases h

/-- A character that is no control character, or a backslash with such characters behind it. -/
theorem chars_cases (glyph : Glyph) : (∃ c, glyph.chars = [c] ∧ IsPlain c) ∨
    ∃ c cs, glyph.chars = '\\' :: c :: cs ∧ ¬c < ' ' ∧ ∀ c ∈ cs, IsPlain c := by
  cases glyph with
  | plain c h => exact .inl ⟨c, rfl, h⟩
  | escape c value h =>
    refine .inr ⟨c, [], rfl, fun hcontrol => ?_, nofun⟩
    obtain ⟨n, hn, rfl⟩ := exists_ofNat_of_control hcontrol
    interval_cases n <;> cases h
  | unit a b c d value h =>
    simp only [hexUnit?, Option.bind_eq_bind, Option.bind_eq_some_iff] at h
    obtain ⟨_, ha, _, hb, _, hc, _, hd, -⟩ := h
    refine .inr ⟨'u', [a, b, c, d], rfl, by decide, ?_⟩
    simp only [List.forall_mem_cons]
    exact ⟨isPlain_of_hexValue? ha, isPlain_of_hexValue? hb, isPlain_of_hexValue? hc,
      isPlain_of_hexValue? hd, nofun⟩

end Glyph

def quotedChars (glyphs : List Glyph) : List Char := '"' :: (glyphs.flatMap Glyph.chars ++ ['"'])

/-- What a quoted text stands for, unless half a pair of units stands alone in it. -/
def textOf (glyphs : List Glyph) : Except Fault String :=
  (glyphs.foldl Glyph.append ⟨[], none, false⟩).close false

theorem scanText_glyph (draft : Draft) (glyph : Glyph) (rest : List Symbol) :
    scanText draft false (glyph.chars.map some ++ rest) =
      scanText (glyph.append draft) false rest := by
  cases glyph with
  | plain c h =>
    obtain ⟨hquote, hslash, hcontrol⟩ := h
    change scanText draft false (some c :: rest) = _
    rw [scanText, if_neg hcontrol]
    · rfl
    -- The other equations are about quotes and backslashes.
    all_goals
      intros
      simp_all
  | escape c value h =>
    have hunit : c ≠ 'u' := by
      rintro rfl
      cases h
    change scanText draft false (some '\\' :: some c :: rest) = _
    rw [scanText, h]
    · rfl
    all_goals
      intros
      simp_all
  | unit a b c d value h =>
    change scanText draft false
      (some '\\' :: some 'u' :: some a :: some b :: some c :: some d :: rest) = _
    rw [scanText, h]
    rfl

theorem scanText_glyphs (draft : Draft) (glyphs : List Glyph) (rest : List Symbol) :
    scanText draft false ((glyphs.flatMap Glyph.chars).map some ++ some '"' :: rest) =
      (.text ((glyphs.foldl Glyph.append draft).close false), rest) := by
  induction glyphs generalizing draft with
  | nil => rfl
  | cons glyph glyphs ih =>
    rw [List.flatMap_cons, List.map_append, List.append_assoc, scanText_glyph, ih, List.foldl_cons]

def Quotes (draft : Draft) (cs : List Char) (node : Node) (rest : List Symbol) : Prop :=
  ∃ (glyphs : List Glyph) (tail : List Char), cs = glyphs.flatMap Glyph.chars ++ '"' :: tail ∧
    rest = tail.map some ∧ node = .text ((glyphs.foldl Glyph.append draft).close false)

theorem Quotes.cons {draft : Draft} {cs : List Char} {node : Node} {rest : List Symbol}
    (glyph : Glyph) (h : Quotes (glyph.append draft) cs node rest) :
    Quotes draft (glyph.chars ++ cs) node rest := by
  obtain ⟨glyphs, tail, rfl, hrest, hnode⟩ := h
  exact ⟨glyph :: glyphs, tail, by rw [List.flatMap_cons, List.append_assoc], hrest, hnode⟩

theorem exists_of_map_some {cs : List Char} {symbol : Symbol} {symbols : List Symbol}
    (h : cs.map some = symbol :: symbols) :
    ∃ c tail, cs = c :: tail ∧ symbol = some c ∧ tail.map some = symbols := by
  obtain ⟨c, tail, hcs, hc, htail⟩ := List.map_eq_cons_iff.mp h
  exact ⟨c, tail, hcs, hc.symm, htail⟩

theorem quotes_of_scanText {draft : Draft} {cs : List Char} {node : Node} {rest : List Symbol}
    (h : scanText draft false (cs.map some) = (node, rest)) (hskip : node.skip = .ok ()) :
    Quotes draft cs node rest := by
  generalize hcs : cs.map some = symbols at h
  generalize hwhole : false = undecoded at h
  fun_induction scanText draft undecoded symbols generalizing cs
  case case2 draft undecoded _ =>
    obtain ⟨_, tail, rfl, hquote, rfl⟩ := exists_of_map_some hcs
    cases hquote
    cases h
    exact ⟨[], tail, rfl, rfl, by rw [← hwhole]; rfl⟩
  case case3 draft undecoded a b c d _ value hvalue ih =>
    obtain ⟨_, _, rfl, hslash, hslashes⟩ := exists_of_map_some hcs
    obtain ⟨_, _, rfl, hu, hunit⟩ := exists_of_map_some hslashes
    obtain ⟨a, _, rfl, rfl, ha⟩ := exists_of_map_some hunit
    obtain ⟨b, _, rfl, rfl, hb⟩ := exists_of_map_some ha
    obtain ⟨c, _, rfl, rfl, hc⟩ := exists_of_map_some hb
    obtain ⟨d, _, rfl, rfl, hd⟩ := exists_of_map_some hc
    cases hslash
    cases hu
    exact (ih hd hwhole h).cons (.unit a b c d value hvalue)
  case case7 draft undecoded c _ _ _ value hvalue ih =>
    obtain ⟨_, _, rfl, hslash, hslashes⟩ := exists_of_map_some hcs
    obtain ⟨_, _, rfl, hc, htail⟩ := exists_of_map_some hslashes
    cases hslash
    cases hc
    exact (ih htail hwhole h).cons (.escape c value hvalue)
  case case12 draft undecoded c _ hquote _ _ hslash _ hend hcontrol ih =>
    obtain ⟨_, tail, rfl, hc, htail⟩ := exists_of_map_some hcs
    cases hc
    have hplain : c ≠ '\\' := by
      cases tail with
      | nil => exact hend htail.symm
      | cons next tail => exact hslash next _ htail.symm
    exact (ih htail hwhole h).cons (.plain c ⟨hquote, hplain, hcontrol⟩)
  case case13 =>
    obtain ⟨_, _, _, hnone, _⟩ := exists_of_map_some hcs
    cases hnone
  -- In the other cases the text breaks off.
  all_goals
    cases h
    cases hskip

/-- Nothing follows that a number would go on with. -/
def Ends (rest : List Symbol) : Prop :=
  rest = [] ∨ ∃ c cs, rest = some c :: cs ∧
    (isAsciiBlank c ∨ c = ',' ∨ c = ']' ∨ c = '\x7d')

def NoDigit (rest : List Symbol) : Prop := ∀ symbol ∈ rest.head?, isDigitSymbol symbol = false

theorem NoDigit.cons {c : Char} (h : c.isDigit = false) (cs : List Symbol) :
    NoDigit (some c :: cs) := by
  rintro symbol ⟨⟩
  exact h

theorem not_isBlank_of_isDigit {c : Char} (h : c.isDigit) : isBlank c = false := by
  simp only [Char.isDigit, Bool.and_eq_true, decide_eq_true_eq, UInt32.le_iff_toNat_le] at h
  have hlow : 48 ≤ c.toNat := h.1
  have hhigh : c.toNat ≤ 57 := h.2
  simp [isBlank]
  omega

theorem not_isAsciiBlank {c : Char} (h : isBlank c = false) : isAsciiBlank c = false := by
  by_contra hblank
  rw [Bool.not_eq_false] at hblank
  rw [isBlank_of_isAsciiBlank hblank] at h
  cases h

theorem Ends.noDigit {rest : List Symbol} (h : Ends rest) : NoDigit rest := by
  rcases h with rfl | ⟨c, cs, rfl, hc⟩
  · rintro symbol ⟨⟩
  · apply NoDigit.cons
    by_contra hdigit
    rw [Bool.not_eq_false] at hdigit
    rcases hc with hblank | rfl | rfl | rfl
    · rw [not_isAsciiBlank (not_isBlank_of_isDigit hdigit)] at hblank
      cases hblank
    all_goals cases hdigit

/-- A number does not go on with a point or an exponent. -/
theorem Ends.ne_cons {rest tail : List Symbol} {c : Char} (h : Ends rest)
    (hc : c ∈ ['.', 'e', 'E']) : rest ≠ some c :: tail := by
  rintro rfl
  rcases h with h | ⟨_, _, h, hends⟩
  · cases h
  · cases h
    rcases hends with hblank | rfl | rfl | rfl
    · fin_cases hc <;> cases hblank
    all_goals simp at hc

theorem spanDigits_append {digits : List Char} {rest : List Symbol} (h : AllDigits digits)
    (hrest : NoDigit rest) : spanDigits (digits.map some ++ rest) = (digits, rest) := by
  have hall : ∀ symbol ∈ digits.map some, isDigitSymbol symbol = true := by
    rw [List.forall_mem_map]
    exact h
  have htake : rest.takeWhile isDigitSymbol = [] ∧ rest.dropWhile isDigitSymbol = rest := by
    cases rest with
    | nil => exact ⟨rfl, rfl⟩
    | cons symbol rest => simp [hrest symbol rfl]
  rw [spanDigits, List.takeWhile_append_of_pos hall, List.dropWhile_append_of_pos hall, htake.1,
    htake.2, List.append_nil]
  simp

/-- The digits at the start of a text. -/
theorem exists_spanDigits (cs : List Char) : ∃ digits tail, cs = digits ++ tail ∧
    AllDigits digits ∧ spanDigits (cs.map some) = (digits, tail.map some) := by
  have hdigit : isDigitSymbol ∘ some = Char.isDigit := rfl
  refine ⟨cs.takeWhile Char.isDigit, cs.dropWhile Char.isDigit,
    List.takeWhile_append_dropWhile.symm, fun c hc => List.mem_takeWhile_imp hc, ?_⟩
  rw [spanDigits, List.takeWhile_map, List.dropWhile_map, hdigit]
  simp

structure PowerText where
  mark : Char
  sign : List Char
  digits : List Char
  mark_eq : mark = 'e' ∨ mark = 'E'
  sign_eq : sign = [] ∨ sign = ['+'] ∨ sign = ['-']
  digits_ne : digits ≠ []
  allDigits : AllDigits digits

namespace PowerText

def chars (power : PowerText) : List Char := power.mark :: (power.sign ++ power.digits)

theorem mem_chars (power : PowerText) {c : Char} (h : c ∈ power.chars) :
    c.isDigit ∨ c ∈ ['-', '+', '.', 'e', 'E'] := by
  simp only [chars, List.mem_cons, List.mem_append] at h
  rcases h with rfl | hsign | hc
  · rcases power.mark_eq with h | h <;> simp [h]
  · right
    rcases power.sign_eq with h | h | h <;> rw [h] at hsign
    · cases hsign
    · simp [List.mem_singleton.mp hsign]
    · simp [List.mem_singleton.mp hsign]
  · exact .inl (power.allDigits c hc)

def value (power : PowerText) : ℤ :=
  if power.sign = ['-'] then -digitsValue power.digits else digitsValue power.digits

end PowerText

structure NumberText where
  negative : Bool
  whole : List Char
  decimals : List Char
  power : Option PowerText
  whole_ne : whole ≠ []
  allDigits_whole : AllDigits whole
  head_whole : ∀ c cs, whole ≠ '0' :: c :: cs
  allDigits_decimals : AllDigits decimals

namespace NumberText

def pointChars : List Char → List Char
  | [] => []
  | decimals => '.' :: decimals

def powerChars : Option PowerText → List Char
  | none => []
  | some power => power.chars

def magnitude (n : NumberText) : List Char :=
  n.whole ++ (pointChars n.decimals ++ powerChars n.power)

def chars (n : NumberText) : List Char := signChars n.negative ++ n.magnitude

def withPower (number : Number) : Option PowerText → Number
  | none => number
  | some power =>
    { number with numeral := { number.numeral with exponent := power.value }, power := true }

def number (n : NumberText) : Number :=
  withPower ⟨n.negative, ⟨n.whole, n.decimals, 0⟩, !n.decimals.isEmpty, false⟩ n.power

theorem mem_chars (n : NumberText) {c : Char} :
    c ∈ n.chars → c.isDigit ∨ c ∈ ['-', '+', '.', 'e', 'E'] := by
  obtain ⟨negative, whole, decimals, power, -, hwhole, -, hdecimals⟩ := n
  intro h
  simp only [chars, magnitude, List.mem_append] at h
  rcases h with hsign | hc | hpoint | hpower
  · cases negative with
    | false => cases hsign
    | true => exact .inr (by simp [List.mem_singleton.mp hsign])
  · exact .inl (hwhole c hc)
  · cases decimals with
    | nil => cases hpoint
    | cons digit decimals =>
      rcases List.mem_cons.mp hpoint with rfl | hc
      · exact .inr (by simp)
      · exact .inl (hdecimals c hc)
  · cases power with
    | none => cases hpower
    | some power => exact power.mem_chars hpower

theorem not_control (n : NumberText) : ∀ c ∈ n.chars, ¬c < ' ' := by
  intro c hc hcontrol
  obtain ⟨k, hk, rfl⟩ := exists_ofNat_of_control hcontrol
  have hnumber := n.mem_chars hc
  interval_cases k <;> simp at hnumber

end NumberText

open NumberText

/-- An exponent is scanned as a sign and digits. -/
theorem scanPower_mark (number : Number) {mark : Char} {sign digits : List Char}
    {cs rest : List Symbol} (hmark : mark = 'e' ∨ mark = 'E')
    (hsign : (sign = [] ∧ ∀ tail, cs ≠ some '+' :: tail ∧ cs ≠ some '-' :: tail) ∨
      sign = ['+'] ∨ sign = ['-'])
    (hspan : spanDigits cs = (digits, rest)) :
    scanPower number (some mark :: (sign.map some ++ cs)) =
      if digits = [] then missingDigit rest
      else (.number { number with
        numeral := { number.numeral with
          exponent := if sign = ['-'] then -digitsValue digits else digitsValue digits },
        power := true }, rest) := by
  rcases hsign with ⟨rfl, hnone⟩ | rfl | rfl
  · cases cs with
    | nil =>
      obtain ⟨rfl, rfl⟩ := Prod.mk.inj hspan
      rcases hmark with rfl | rfl <;> rfl
    | cons symbol cs =>
      have hplus : symbol ≠ some '+' := by rintro rfl; exact (hnone cs).1 rfl
      have hminus : symbol ≠ some '-' := by rintro rfl; exact (hnone cs).2 rfl
      rcases hmark with rfl | rfl <;> cases digits <;> simp [scanPower, hplus, hminus, hspan]
  all_goals
    rcases hmark with rfl | rfl <;> cases digits <;> simp [scanPower, hspan]

theorem scanPower_powerChars (number : Number) (power : Option PowerText) {rest : List Symbol}
    (hrest : Ends rest) : scanPower number ((powerChars power).map some ++ rest) =
      (.number (withPower number power), rest) := by
  cases power with
  | none =>
    rw [powerChars, List.map_nil, List.nil_append, scanPower]
    · rfl
    · exact fun _ => hrest.ne_cons (by simp)
    · exact fun _ => hrest.ne_cons (by simp)
  | some power =>
    have hspan := spanDigits_append power.allDigits hrest.noDigit
    have hunsigned : ∀ tail, power.digits.map some ++ rest ≠ some '+' :: tail ∧
        power.digits.map some ++ rest ≠ some '-' :: tail := by
      obtain ⟨c, cs, hdigits⟩ := List.exists_cons_of_ne_nil power.digits_ne
      have hc : c.isDigit := power.allDigits c (by rw [hdigits]; exact List.mem_cons_self)
      rw [hdigits]
      intro tail
      constructor <;> (rintro ⟨⟩; cases hc)
    rw [powerChars, PowerText.chars, List.map_cons, List.map_append, List.cons_append,
      List.append_assoc, scanPower_mark number power.mark_eq
        (power.sign_eq.imp_left (⟨·, hunsigned⟩)) hspan, if_neg power.digits_ne]
    rfl

theorem noDigit_powerChars (power : Option PowerText) {rest : List Symbol} (hrest : Ends rest) :
    NoDigit ((powerChars power).map some ++ rest) := by
  cases power with
  | none => exact hrest.noDigit
  | some power => rcases power.mark_eq with h | h <;>
      (rw [powerChars, PowerText.chars, h]; exact .cons rfl _)

theorem powerChars_ne_point (power : Option PowerText) {rest tail : List Symbol}
    (hrest : Ends rest) : (powerChars power).map some ++ rest ≠ some '.' :: tail := by
  cases power with
  | none => exact hrest.ne_cons (by simp)
  | some power => rcases power.mark_eq with h | h <;>
      (rw [powerChars, PowerText.chars, h]; rintro ⟨⟩)

theorem scanDecimals_pointChars (negative : Bool) (whole : List Char) {decimals : List Char}
    (h : AllDigits decimals) (power : Option PowerText) {rest : List Symbol} (hrest : Ends rest) :
    scanDecimals negative whole ((pointChars decimals ++ powerChars power).map some ++ rest) =
      (.number (withPower ⟨negative, ⟨whole, decimals, 0⟩, !decimals.isEmpty, false⟩ power),
        rest) := by
  rw [List.map_append, List.append_assoc]
  cases decimals with
  | nil =>
    rw [pointChars, List.map_nil, List.nil_append, scanDecimals]
    · exact scanPower_powerChars _ power hrest
    · exact fun _ => powerChars_ne_point power hrest
  | cons c decimals =>
    rw [pointChars, List.map_cons, List.cons_append, scanDecimals,
      spanDigits_append h (noDigit_powerChars power hrest)]
    · exact scanPower_powerChars _ power hrest
    · simp

theorem noDigit_pointChars (decimals : List Char) (power : Option PowerText) {rest : List Symbol}
    (hrest : Ends rest) :
    NoDigit ((pointChars decimals ++ powerChars power).map some ++ rest) := by
  cases decimals with
  | nil => exact noDigit_powerChars power hrest
  | cons c decimals => exact .cons rfl _

/-- A number is scanned as it is written, whatever ends it. -/
theorem scanNumber_magnitude (n : NumberText) {rest : List Symbol} (hrest : Ends rest) :
    scanNumber n.negative (n.magnitude.map some ++ rest) = (.number n.number, rest) := by
  have hdecimals := scanDecimals_pointChars n.negative n.whole n.allDigits_decimals n.power hrest
  rw [scanNumber, magnitude, List.map_append, List.append_assoc,
    spanDigits_append n.allDigits_whole (noDigit_pointChars n.decimals n.power hrest)]
  split
  next heq => exact absurd (Prod.mk.inj heq).1 n.whole_ne
  next c cs _ heq => exact absurd (Prod.mk.inj heq).1 (n.head_whole c cs)
  next heq =>
    obtain ⟨rfl, rfl⟩ := Prod.mk.inj heq
    exact hdecimals

theorem not_skip_missingDigit {cs rest : List Symbol} {node : Node}
    (h : missingDigit cs = (node, rest)) : node.skip ≠ .ok () := by
  cases cs <;> (cases h; rintro ⟨⟩)

/-- The sign at the start of a text. -/
theorem exists_sign (cs : List Char) : ∃ sign tail, cs = sign ++ tail ∧
    ((sign = [] ∧ ∀ rest, tail.map some ≠ some '+' :: rest ∧ tail.map some ≠ some '-' :: rest) ∨
      sign = ['+'] ∨ sign = ['-']) := by
  by_cases hplus : ∃ tail, cs = '+' :: tail
  · obtain ⟨tail, rfl⟩ := hplus
    exact ⟨['+'], tail, rfl, by simp⟩
  by_cases hminus : ∃ tail, cs = '-' :: tail
  · obtain ⟨tail, rfl⟩ := hminus
    exact ⟨['-'], tail, rfl, by simp⟩
  refine ⟨[], cs, rfl, .inl ⟨rfl, fun rest => ⟨?_, ?_⟩⟩⟩
  all_goals
    intro hsymbols
    obtain ⟨c, tail, hcs, hc, _⟩ := exists_of_map_some hsymbols
    cases hc
  · exact hplus ⟨tail, hcs⟩
  · exact hminus ⟨tail, hcs⟩

theorem powerChars_of_scanPower {number : Number} {cs : List Char} {node : Node}
    {rest : List Symbol} (h : scanPower number (cs.map some) = (node, rest))
    (hskip : node.skip = .ok ()) : ∃ power tail, cs = powerChars power ++ tail ∧
      rest = tail.map some ∧ node = .number (withPower number power) := by
  by_cases hmark : ∃ mark tail, (mark = 'e' ∨ mark = 'E') ∧ cs = mark :: tail
  · obtain ⟨mark, tail, hmark, rfl⟩ := hmark
    obtain ⟨sign, tail, rfl, hsign⟩ := exists_sign tail
    obtain ⟨digits, tail, rfl, hdigits, hspan⟩ := exists_spanDigits tail
    rw [List.map_cons, List.map_append, scanPower_mark number hmark hsign hspan] at h
    by_cases hnone : digits = []
    · rw [if_pos hnone] at h
      exact absurd hskip (not_skip_missingDigit h)
    · rw [if_neg hnone] at h
      cases h
      let power : PowerText := ⟨mark, sign, digits, hmark, hsign.imp_left And.left, hnone, hdigits⟩
      exact ⟨some power, tail, by simp [powerChars, PowerText.chars, power], rfl, rfl⟩
  · rw [scanPower] at h
    · cases h
      exact ⟨none, cs, rfl, rfl, rfl⟩
    all_goals
      intro symbols hsymbols
      obtain ⟨c, tail, hcs, hc, _⟩ := exists_of_map_some hsymbols
      cases hc
      exact hmark ⟨_, tail, by simp, hcs⟩

theorem pointChars_of_scanDecimals {negative : Bool} {whole cs : List Char} {node : Node}
    {rest : List Symbol} (h : scanDecimals negative whole (cs.map some) = (node, rest))
    (hskip : node.skip = .ok ()) : ∃ decimals power tail,
      cs = pointChars decimals ++ powerChars power ++ tail ∧ AllDigits decimals ∧
        rest = tail.map some ∧ node = .number
          (withPower ⟨negative, ⟨whole, decimals, 0⟩, !decimals.isEmpty, false⟩ power) := by
  by_cases hpoint : ∃ tail, cs = '.' :: tail
  · obtain ⟨tail, rfl⟩ := hpoint
    obtain ⟨decimals, tail, rfl, hdecimals, hspan⟩ := exists_spanDigits tail
    rw [List.map_cons, scanDecimals, hspan] at h
    cases decimals with
    | nil => exact absurd hskip (not_skip_missingDigit h)
    | cons c decimals =>
      obtain ⟨power, rest, rfl, hrest, hnode⟩ := powerChars_of_scanPower h hskip
      exact ⟨c :: decimals, power, rest, by simp [pointChars], hdecimals, hrest, hnode⟩
  · rw [scanDecimals] at h
    · obtain ⟨power, rest, rfl, hrest, hnode⟩ := powerChars_of_scanPower h hskip
      exact ⟨[], power, rest, rfl, nofun, hrest, hnode⟩
    · intro symbols hsymbols
      obtain ⟨_, tail, hcs, hc, _⟩ := exists_of_map_some hsymbols
      cases hc
      exact hpoint ⟨tail, hcs⟩

/-- A number that is passed over is a numeral as it may be written. -/
theorem exists_magnitude {negative : Bool} (cs : List Char) {node : Node} {rest : List Symbol}
    (h : scanNumber negative (cs.map some) = (node, rest)) (hskip : node.skip = .ok ()) :
    ∃ (n : NumberText) (tail : List Char), n.negative = negative ∧ cs = n.magnitude ++ tail ∧
      rest = tail.map some ∧ node = .number n.number := by
  obtain ⟨whole, tail, rfl, hwhole, hspan⟩ := exists_spanDigits cs
  rw [scanNumber, hspan] at h
  split at h
  next => exact absurd hskip (not_skip_missingDigit h)
  next =>
    cases h
    cases hskip
  next hne hhead heq =>
    obtain ⟨rfl, rfl⟩ := Prod.mk.inj heq
    obtain ⟨decimals, power, rest, rfl, hdecimals, hrest, hnode⟩ :=
      pointChars_of_scanDecimals h hskip
    refine ⟨⟨negative, whole, decimals, power, hne, hwhole, hhead, hdecimals⟩, rest, rfl, ?_,
      hrest, hnode⟩
    rw [magnitude, List.append_assoc, List.append_assoc, List.append_assoc]

theorem append_of_scanWord {word : Node} {chars cs : List Char} {node : Node} {rest : List Symbol}
    (h : scanWord word chars (cs.map some) = (node, rest)) (hskip : node.skip = .ok ()) :
    ∃ tail, cs = chars ++ tail ∧ rest = tail.map some ∧ node = word := by
  induction chars generalizing cs with
  | nil =>
    cases h
    exact ⟨cs, rfl, rfl, rfl⟩
  | cons c chars ih =>
    cases cs with
    | nil =>
      cases h
      cases hskip
    | cons symbol cs =>
      rw [List.map_cons, scanWord] at h
      split_ifs at h with hc
      · cases hc
        obtain ⟨tail, rfl, hrest, hnode⟩ := ih h
        exact ⟨tail, rfl, hrest, hnode⟩
      · cases h
        cases hskip

end ClusterBench.Json
