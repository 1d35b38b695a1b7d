import Mathlib
import ClusterBench.Binary64.Decimal
import ClusterBench.Binary64.Reading

/-!
# Digits as texts

Writing a number in digits and reading its digits are inverse to each other, also with a point
among them, with zeros in front and with zeros dropped at the end. A numeral of whole digits,
decimals and an exponent is read as exactly these parts.
-/

namespace ClusterBench

def AllDigits (cs : List Char) : Prop := ∀ c ∈ cs, c.isDigit

theorem AllDigits.append {as bs : List Char} (ha : AllDigits as) (hb : AllDigits bs) :
    AllDigits (as ++ bs) := by
  intro c hc
  rcases List.mem_append.mp hc with h | h
  · exact ha c h
  · exact hb c h

theorem AllDigits.of_subset {as bs : List Char} (hb : AllDigits bs) (h : as ⊆ bs) :
    AllDigits as := fun c hc => hb c (h hc)

theorem AllDigits.notMem {cs : List Char} (h : AllDigits cs) {c : Char} (hc : c.isDigit = false) :
    c ∉ cs := by
  intro hmem
  have := h c hmem
  rw [hc] at this
  exact Bool.false_ne_true this

theorem allDigits_toDigits (n : ℕ) : AllDigits (Nat.toDigits 10 n) :=
  fun _ hc => Nat.isDigit_of_mem_toDigits (by norm_num) (by norm_num) hc

theorem allDigits_replicate_zero (n : ℕ) : AllDigits (List.replicate n '0') := by
  intro c hc
  rw [List.eq_of_mem_replicate hc]
  rfl

theorem foldl_digits (cs : List Char) (n : ℕ) :
    cs.foldl (fun n c => n * 10 + digitValue c) n = n * 10 ^ cs.length + digitsValue cs := by
  induction cs generalizing n with
  | nil => simp [digitsValue]
  | cons c cs ih =>
    have hcons : digitsValue (c :: cs) = digitValue c * 10 ^ cs.length + digitsValue cs := by
      rw [digitsValue, List.foldl_cons, ih, Nat.zero_mul, Nat.zero_add]
    rw [List.foldl_cons, ih, hcons, List.length_cons]
    ring

theorem digitsValue_append (as bs : List Char) :
    digitsValue (as ++ bs) = digitsValue as * 10 ^ bs.length + digitsValue bs := by
  rw [digitsValue, List.foldl_append, foldl_digits]
  rfl

theorem digitsValue_replicate_zero (n : ℕ) : digitsValue (List.replicate n '0') = 0 := by
  induction n with
  | zero => rfl
  | succ n ih =>
    rw [List.replicate_succ', digitsValue_append, ih]
    rfl

theorem digitsValue_eq_ofDigitChars {cs : List Char} (h : AllDigits cs) :
    digitsValue cs = Nat.ofDigitChars 10 cs 0 := by
  induction cs using List.reverseRecOn with
  | nil => rfl
  | append_singleton cs c ih =>
    have hc : c.isDigit := h c (by simp)
    rw [digitsValue_append, ih (h.of_subset (by simp)), Nat.ofDigitChars_append,
      Nat.ofDigitChars_cons, Nat.ofDigitChars_nil]
    simp [digitsValue, digitValue, hc, mul_comm]

@[simp] theorem digitsValue_toDigits (n : ℕ) : digitsValue (Nat.toDigits 10 n) = n := by
  rw [digitsValue_eq_ofDigitChars (allDigits_toDigits n), Nat.ofDigitChars_ten_toDigits]

theorem toDigits_injective {m n : ℕ} (h : Nat.toDigits 10 m = Nat.toDigits 10 n) : m = n := by
  have := congrArg digitsValue h
  simpa only [digitsValue_toDigits] using this

@[simp] theorem toList_digitsText (n : ℕ) : (digitsText n).toList = Nat.toDigits 10 n := by
  simp [digitsText]

/-- Zeros in front do not change what a numeral tells. -/
theorem digitsValue_padZeros (width n : ℕ) :
    digitsValue (padZeros width (digitsText n)).toList = n := by
  rw [padZeros, String.toList_append, String.toList_ofList, digitsValue_append,
    digitsValue_replicate_zero, toList_digitsText, digitsValue_toDigits, Nat.zero_mul, Nat.zero_add]

theorem padZeros_digitsText_injective (width : ℕ) :
    Function.Injective fun n => padZeros width (digitsText n) := by
  intro m n h
  have hvalue := congrArg (fun text : String => digitsValue text.toList) h
  simpa only [digitsValue_padZeros] using hvalue

def decimalChars (places n : ℕ) : List Char :=
  List.replicate (places - (Nat.toDigits 10 (n % 10 ^ places)).length) '0' ++
    Nat.toDigits 10 (n % 10 ^ places)

def pointed (decimals : List Char) : List Char :=
  if decimals = [] then [] else '.' :: decimals

theorem allDigits_decimalChars (places n : ℕ) : AllDigits (decimalChars places n) :=
  (allDigits_replicate_zero _).append (allDigits_toDigits _)

theorem length_decimalChars {places : ℕ} (h : places ≠ 0) (n : ℕ) :
    (decimalChars places n).length = places := by
  have hle : (Nat.toDigits 10 (n % 10 ^ places)).length ≤ places :=
    (Nat.length_toDigits_le_iff (by norm_num) (by omega)).mpr (Nat.mod_lt _ (by positivity))
  rw [decimalChars, List.length_append, List.length_replicate]
  omega

theorem digitsValue_decimalChars (places n : ℕ) :
    digitsValue (decimalChars places n) = n % 10 ^ places := by
  rw [decimalChars, digitsValue_append, digitsValue_replicate_zero, digitsValue_toDigits]
  omega

theorem digitsValue_toDigits_append {places : ℕ} (h : places ≠ 0) (n : ℕ) :
    digitsValue (Nat.toDigits 10 (n / 10 ^ places) ++ decimalChars places n) = n := by
  rw [digitsValue_append, digitsValue_toDigits, length_decimalChars h, digitsValue_decimalChars,
    mul_comm, Nat.div_add_mod]

theorem toList_placesText {places : ℕ} (h : places ≠ 0) (n : ℕ) :
    (placesText places n).toList =
      Nat.toDigits 10 (n / 10 ^ places) ++ '.' :: decimalChars places n := by
  simp [placesText, h, padZeros, decimalChars, digitsText]

@[simp] theorem placesText_zero (n : ℕ) : placesText 0 n = digitsText n := by
  simp [placesText]

def keptDecimals (places n : ℕ) : List Char :=
  if places = 0 then [] else (decimalChars places n).rdropWhile (· == '0')

theorem toList_trimZeros_of_notMem {text : String} (h : '.' ∉ text.toList) :
    (trimZeros text).toList = text.toList := by
  simp [trimZeros, h]

theorem toList_trimZeros {text : String} {before decimals : List Char}
    (h : text.toList = before ++ '.' :: decimals) (hdecimals : AllDigits decimals)
    (hbefore : before.getLast? ≠ some '.') :
    (trimZeros text).toList = before ++ pointed (decimals.rdropWhile (· == '0')) := by
  have hmem : text.toList.contains '.' = true := by simp [h]
  have hback : before.reverse.dropWhile (· == '.') = before.reverse := by
    cases hrev : before.reverse with
    | nil => rfl
    | cons c cs =>
      have hlast : before.getLast? = some c := by
        rw [← List.head?_reverse, hrev]
        rfl
      have hne : c ≠ '.' := fun he => hbefore (he ▸ hlast)
      rw [List.dropWhile_cons_of_neg (by simpa using hne)]
  unfold trimZeros pointed List.rdropWhile
  rw [if_pos hmem]
  simp only [h, List.reverse_append, List.reverse_cons, List.append_assoc, List.singleton_append,
    String.toList_ofList, List.reverse_eq_nil_iff]
  cases hrest : decimals.reverse.dropWhile (· == '0') with
  | nil =>
    have hall : ∀ c ∈ decimals.reverse, (c == '0') = true := List.dropWhile_eq_nil_iff.mp hrest
    rw [List.dropWhile_append_of_pos hall, List.dropWhile_cons_of_neg (by decide),
      List.dropWhile_cons_of_pos (by decide), hback]
    simp
  | cons c cs =>
    have hc : c.isDigit := by
      apply hdecimals
      rw [← List.mem_reverse]
      exact (List.dropWhile_sublist _).subset (hrest ▸ List.mem_cons_self)
    have hne : c ≠ '.' := by
      intro he
      rw [he] at hc
      exact absurd hc (by decide)
    rw [List.dropWhile_append, hrest]
    simp [hne]

theorem toList_trimZeros_placesText (sign : String) (hsign : '.' ∉ sign.toList) (places n : ℕ) :
    (trimZeros (sign ++ placesText places n)).toList =
      sign.toList ++ Nat.toDigits 10 (n / 10 ^ places) ++ pointed (keptDecimals places n) := by
  by_cases hplaces : places = 0
  · subst hplaces
    have hpoint : '.' ∉ (sign ++ placesText 0 n).toList := by
      simp [hsign, (allDigits_toDigits n).notMem (by decide : '.'.isDigit = false)]
    rw [toList_trimZeros_of_notMem hpoint]
    simp [keptDecimals, pointed]
  · have hdigits := allDigits_toDigits (n / 10 ^ places)
    have htext : (sign ++ placesText places n).toList =
        (sign.toList ++ Nat.toDigits 10 (n / 10 ^ places)) ++ '.' :: decimalChars places n := by
      rw [String.toList_append, toList_placesText hplaces, List.append_assoc]
    have hlast : (sign.toList ++ Nat.toDigits 10 (n / 10 ^ places)).getLast? ≠ some '.' := by
      rw [List.getLast?_append_of_ne_nil _ Nat.toDigits_ne_nil]
      intro he
      exact hdigits.notMem (by decide : '.'.isDigit = false) (List.mem_of_getLast? he)
    rw [toList_trimZeros htext (allDigits_decimalChars places n) hlast, keptDecimals,
      if_neg hplaces]

theorem allDigits_keptDecimals (places n : ℕ) : AllDigits (keptDecimals places n) := by
  unfold keptDecimals
  split_ifs
  · simp [AllDigits]
  · exact (allDigits_decimalChars places n).of_subset (List.rdropWhile_prefix _ _).subset

theorem length_keptDecimals_le (places n : ℕ) : (keptDecimals places n).length ≤ places := by
  unfold keptDecimals
  split_ifs with h
  · simp
  · exact (List.rdropWhile_prefix _ _).length_le.trans (length_decimalChars h n).le

/-- The kept decimals and the dropped zeros are all decimals. -/
theorem keptDecimals_append_zeros {places : ℕ} (h : places ≠ 0) (n : ℕ) :
    keptDecimals places n ++ List.replicate (places - (keptDecimals places n).length) '0' =
      decimalChars places n := by
  have hsplit : (decimalChars places n).rdropWhile (· == '0') ++
      (decimalChars places n).rtakeWhile (· == '0') = decimalChars places n :=
    List.rdropWhile_append_rtakeWhile
  have hlength := congrArg List.length hsplit
  rw [List.length_append, length_decimalChars h] at hlength
  have hzeros : (decimalChars places n).rtakeWhile (· == '0') =
      List.replicate ((decimalChars places n).rtakeWhile (· == '0')).length '0' := by
    apply List.eq_replicate_of_mem
    intro c hc
    simpa using List.mem_rtakeWhile_imp hc
  rw [keptDecimals, if_neg h]
  conv_rhs => rw [← hsplit, hzeros]
  congr 2
  omega

/-- Without the zeros the digits stand for the same number, in greater steps. -/
theorem digitsValue_keptDecimals (places n : ℕ) :
    digitsValue (Nat.toDigits 10 (n / 10 ^ places) ++ keptDecimals places n) *
      10 ^ (places - (keptDecimals places n).length) = n := by
  by_cases hplaces : places = 0
  · subst hplaces
    simp [keptDecimals]
  · conv_rhs => rw [← digitsValue_toDigits_append hplaces n, ← keptDecimals_append_zeros hplaces,
      ← List.append_assoc, digitsValue_append, digitsValue_replicate_zero, List.length_replicate,
      Nat.add_zero]

theorem splitDigits_append {digits rest : List Char} (hdigits : AllDigits digits)
    (hrest : ∀ c ∈ rest.head?, c.isDigit = false) :
    splitDigits (digits ++ rest) = (digits, rest) := by
  have htake : rest.takeWhile Char.isDigit = [] ∧ rest.dropWhile Char.isDigit = rest := by
    cases rest with
    | nil => exact ⟨rfl, rfl⟩
    | cons c cs =>
      have hc := hrest c rfl
      simp [hc]
  rw [splitDigits, List.takeWhile_append_of_pos hdigits, List.dropWhile_append_of_pos hdigits,
    htake.1, htake.2, List.append_nil]

theorem eq_of_append_cons_eq {α : Type} {c : α} {as bs xs ys : List α} (hxs : c ∉ xs)
    (hys : c ∉ ys) (h : as ++ c :: xs = bs ++ c :: ys) : as = bs ∧ xs = ys := by
  rcases List.append_eq_append_iff.mp h with ⟨zs, hbs, hzs⟩ | ⟨zs, has, hzs⟩
  · cases zs with
    | nil => exact ⟨by simpa using hbs.symm, (List.cons.inj hzs).2⟩
    | cons z zs =>
      have hmem : c ∈ xs := by
        rw [(List.cons.inj hzs).2]
        simp
      exact absurd hmem hxs
  · cases zs with
    | nil => exact ⟨by simpa using has, (List.cons.inj hzs).2.symm⟩
    | cons z zs =>
      have hmem : c ∈ ys := by
        rw [(List.cons.inj hzs).2]
        simp
      exact absurd hmem hys

theorem toDigits_append_inj {m n : ℕ} {c : Char} {as bs : List Char} (hc : c.isDigit = false)
    (h : Nat.toDigits 10 m ++ c :: as = Nat.toDigits 10 n ++ c :: bs) : m = n ∧ as = bs := by
  have hsplit := congrArg splitDigits h
  rw [splitDigits_append (allDigits_toDigits m) (by simp [hc]),
    splitDigits_append (allDigits_toDigits n) (by simp [hc])] at hsplit
  obtain ⟨hnumber, hrest⟩ := Prod.mk.inj hsplit
  exact ⟨toDigits_injective hnumber, (List.cons.inj hrest).2⟩

theorem readDecimals_pointed {decimals rest : List Char} (hdecimals : AllDigits decimals)
    (hrest : ∀ c ∈ rest.head?, c.isDigit = false ∧ c ≠ '.') :
    Numeral.readDecimals (pointed decimals ++ rest) = (decimals, rest) := by
  unfold pointed
  split_ifs with h
  · subst h
    cases rest with
    | nil => rfl
    | cons c cs =>
      have hc := (hrest c rfl).2
      simp only [List.nil_append]
      unfold Numeral.readDecimals
      split
      · next heq => exact absurd (List.cons.inj heq).1 hc
      · rfl
  · exact splitDigits_append hdecimals fun c hc => (hrest c hc).1

/-- A numeral is read as the parts that it is written with. -/
theorem read?_numeral {whole decimals rest : List Char} (hwhole : AllDigits whole)
    (hne : whole ≠ []) (hdecimals : AllDigits decimals)
    (hrest : ∀ c ∈ rest.head?, c.isDigit = false ∧ c ≠ '.') :
    Numeral.read? (whole ++ pointed decimals ++ rest) =
      (Numeral.readExponent rest).map fun exponent => ⟨whole, decimals, exponent⟩ := by
  have hhead : ∀ c ∈ (pointed decimals ++ rest).head?, c.isDigit = false := by
    intro c hc
    unfold pointed at hc
    split_ifs at hc
    · exact (hrest c hc).1
    · have : c = '.' := by simpa using hc.symm
      rw [this]
      rfl
  unfold Numeral.read?
  rw [List.append_assoc, splitDigits_append hwhole hhead]
  dsimp only
  rw [readDecimals_pointed hdecimals hrest]
  simp [hne]

theorem readExponent_digits {digits : List Char} (hdigits : AllDigits digits)
    (hne : digits ≠ []) (negative : Bool) :
    Numeral.readExponent ('e' :: (if negative then '-' else '+') :: digits) =
      some (if negative then -(digitsValue digits : ℤ) else digitsValue digits) := by
  have hsplit : splitDigits digits = (digits, []) := by
    have := @splitDigits_append digits [] hdigits (by simp)
    rwa [List.append_nil] at this
  cases negative <;> simp [Numeral.readExponent, splitSign, hsplit, hne]

def signChars (negative : Bool) : List Char := if negative then ['-'] else []

theorem splitSign_signChars (negative : Bool) {cs : List Char}
    (h : ∀ c ∈ cs.head?, c.isDigit) : splitSign (signChars negative ++ cs) = (negative, cs) := by
  cases negative with
  | true => rfl
  | false =>
    cases cs with
    | nil => rfl
    | cons c cs =>
      have hc := h c rfl
      simp only [signChars, Bool.false_eq_true, if_false, List.nil_append]
      unfold splitSign
      split
      · next heq => rw [(List.cons.inj heq).1] at hc; exact absurd hc (by decide)
      · next heq => rw [(List.cons.inj heq).1] at hc; exact absurd hc (by decide)
      · rfl

theorem readChars?_numeral (negative : Bool) {whole decimals rest : List Char}
    (hwhole : AllDigits whole) (hne : whole ≠ []) (hdecimals : AllDigits decimals)
    (hrest : ∀ c ∈ rest.head?, c.isDigit = false ∧ c ≠ '.') {exponent : ℤ}
    (hexponent : Numeral.readExponent rest = some exponent) :
    Binary64.readChars? (signChars negative ++ (whole ++ pointed decimals ++ rest)) =
      some (Binary64.ofDecimal negative (digitsValue (whole ++ decimals))
        (exponent - decimals.length)) := by
  have hhead : ∀ c ∈ (whole ++ pointed decimals ++ rest).head?, c.isDigit := by
    intro c hc
    cases whole with
    | nil => exact absurd rfl hne
    | cons d ds =>
      have : d = c := by simpa using hc
      exact this ▸ hwhole d List.mem_cons_self
  unfold Binary64.readChars?
  rw [splitSign_signChars negative hhead]
  dsimp only
  rw [read?_numeral hwhole hne hdecimals hrest, hexponent]
  rfl

def AllNumeral (cs : List Char) : Prop := ∀ c ∈ cs, c.isDigit ∨ c ∈ "+-.e".toList

theorem AllNumeral.append {as bs : List Char} (ha : AllNumeral as) (hb : AllNumeral bs) :
    AllNumeral (as ++ bs) := by
  intro c hc
  rcases List.mem_append.mp hc with h | h
  · exact ha c h
  · exact hb c h

theorem AllNumeral.cons {cs : List Char} {c : Char} (hc : c ∈ "+-.e".toList)
    (hcs : AllNumeral cs) : AllNumeral (c :: cs) := by
  intro d hd
  rcases List.mem_cons.mp hd with rfl | h
  · exact Or.inr hc
  · exact hcs d h

theorem AllDigits.allNumeral {cs : List Char} (h : AllDigits cs) : AllNumeral cs :=
  fun c hc => Or.inl (h c hc)

theorem allNumeral_pointed {decimals : List Char} (h : AllDigits decimals) :
    AllNumeral (pointed decimals) := by
  unfold pointed
  split_ifs
  · exact fun c hc => absurd hc List.not_mem_nil
  · exact h.allNumeral.cons (by decide)

theorem allNumeral_signChars (negative : Bool) : AllNumeral (signChars negative) := by
  cases negative <;> simp [AllNumeral, signChars]

end ClusterBench
