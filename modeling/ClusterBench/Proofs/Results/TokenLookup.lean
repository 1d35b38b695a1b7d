import ClusterBench.Proofs.Computations
import ClusterBench.Proofs.Text.Words
import ClusterBench.Results.RunData

/-!
# Summaries of tokens are looked up

A summary is scanned for tokens that give a number under one of the keys of the clients, and the
last one for a key counts. So it can be read exactly if each key has such a token; other tokens do
not matter, and neither does the order in which tokens for different keys come.
-/

namespace ClusterBench

section Lookup

variable {α κ β : Type} [DecidableEq κ] {f : α → Option (κ × β)} {k : κ} {as : List α}

def valueUnder (k : κ) (entry : κ × β) : Option β := if k = entry.1 then some entry.2 else none

theorem bind_valueUnder_eq_some_iff {entry : Option (κ × β)} {x : β} :
    entry.bind (valueUnder k) = some x ↔ entry = some (k, x) := by
  rw [Option.bind_eq_some_iff]
  constructor
  · rintro ⟨⟨j, y⟩, rfl, h⟩
    rw [valueUnder, Option.ite_none_right_eq_some] at h
    obtain ⟨rfl, heq⟩ := h
    cases heq
    rfl
  · rintro rfl
    exact ⟨(k, x), rfl, if_pos rfl⟩

theorem bind_valueUnder_eq_none_iff {entry : Option (κ × β)} :
    entry.bind (valueUnder k) = none ↔ ∀ x, entry ≠ some (k, x) := by
  rw [Option.eq_none_iff_forall_ne_some]
  exact forall_congr' fun x => not_congr bind_valueUnder_eq_some_iff

theorem lookup_filterMap (f : α → Option (κ × β)) (k : κ) (as : List α) :
    (as.filterMap f).lookup k = as.findSome? fun a => (f a).bind (valueUnder k) := by
  induction as with
  | nil => rfl
  | cons a as ih =>
    rw [List.filterMap_cons, List.findSome?_cons, ← ih]
    rcases f a with _ | ⟨j, y⟩
    · rfl
    · by_cases hk : k = j
      · simp [valueUnder, hk]
      · rw [List.lookup_cons, beq_false_of_ne hk, Option.bind_some, valueUnder, if_neg hk]

theorem lookup_reverse_eq_some_iff {x : β} : (as.filterMap f).reverse.lookup k = some x ↔
    ∃ before a after, as = before ++ a :: after ∧ f a = some (k, x) ∧
      ∀ later ∈ after, ∀ y, f later ≠ some (k, y) := by
  simp only [← List.filterMap_reverse, lookup_filterMap, List.findSome?_eq_some_iff,
    bind_valueUnder_eq_some_iff, bind_valueUnder_eq_none_iff]
  constructor
  · rintro ⟨front, a, back, has, ha, hfront⟩
    refine ⟨back.reverse, a, front.reverse, ?_, ha, ?_⟩
    · rw [← List.reverse_reverse as, has]
      simp
    · simpa using hfront
  · rintro ⟨before, a, after, rfl, ha, hafter⟩
    refine ⟨after.reverse, a, before.reverse, by simp, ha, ?_⟩
    simpa using hafter

theorem lookup_reverse_eq_none_iff : (as.filterMap f).reverse.lookup k = none ↔
    ∀ a ∈ as, ∀ y, f a ≠ some (k, y) := by
  simp only [← List.filterMap_reverse, lookup_filterMap, List.findSome?_eq_none_iff,
    List.mem_reverse, bind_valueUnder_eq_none_iff]

end Lookup

namespace RunData

def clientKeys : RunData String where
  opsTput := "opsPs"
  dataTput := "thrMBps"
  recordsTput := "recsPs"
  meanLatency := "meanLat"
  medianLatency := "50%Lat"
  p95Latency := "95%Lat"
  p99Latency := "99%Lat"
  minLatency := "minLat"
  maxLatency := "maxLat"

/-- A token gives a number under a key: it has one colon, in front of which is the key, whatever
quotes there are, and behind which is the number, whatever commas there are. -/
def Gives (token : List Char) (key : String) (x : Binary64) : Prop :=
  ∃ left right, token = left ++ ':' :: right ∧ ':' ∉ left ∧ ':' ∉ right ∧
    left.filter (· != '"') = key.toList ∧ Binary64.readChars? (right.filter (· != ',')) = some x

def Given (tokens : List (List Char)) (key : String) : Prop :=
  ∃ token ∈ tokens, ∃ x, Gives token key x

/-- The last token that gives a number under a key gives this one. -/
def LastGiven (tokens : List (List Char)) (key : String) (x : Binary64) : Prop :=
  ∃ before token after, tokens = before ++ token :: after ∧ Gives token key x ∧
    ∀ later ∈ after, ∀ y, ¬Gives later key y

/-- The canonical names are those of the fields, in order. -/
theorem tokenKeys_eq : tokenKeys = clientKeys.toList.zip names := rfl

variable {field : String × String}

/-- Keys and canonical names tell each other. -/
theorem lookup_tokenKeys_iff (hfield : field ∈ tokenKeys) {key : String} :
    tokenKeys.lookup key = some field.2 ↔ key = field.1 := by
  constructor
  · intro h
    obtain ⟨before, after, heq, -⟩ := List.lookup_eq_some_iff.mp h
    have hmem : (key, field.2) ∈ tokenKeys := by
      rw [heq]
      exact List.mem_append_right _ List.mem_cons_self
    have hnames : (tokenKeys.map Prod.snd).Nodup := by decide
    exact congrArg Prod.fst (List.inj_on_of_nodup_map hnames hmem hfield rfl)
  · rintro rfl
    have hall : ∀ field ∈ tokenKeys, tokenKeys.lookup field.1 = some field.2 := by decide
    exact hall field hfield

theorem tokenPair?_eq_some_iff (hfield : field ∈ tokenKeys) {token : List Char} {x : Binary64} :
    tokenPair? token = some (field.2, x) ↔ Gives token field.1 x := by
  have hparts (left right : List Char) : splitWhere (· == ':') token = [left, right] ↔
      token = left ++ ':' :: right ∧ ':' ∉ left ∧ ':' ∉ right := by
    simp only [splitWhere_eq_pair_iff, forall_beq_eq_false_iff, beq_iff_eq]
    constructor
    · rintro ⟨_, htoken, rfl, hsides⟩
      exact ⟨htoken, hsides⟩
    · rintro ⟨htoken, hsides⟩
      exact ⟨':', htoken, rfl, hsides⟩
  constructor
  · intro h
    unfold tokenPair? at h
    split at h
    next left right hsplit =>
      obtain ⟨htoken, hleft, hright⟩ := (hparts left right).mp hsplit
      obtain ⟨y, hy, h⟩ := Option.bind_eq_some_iff.mp h
      obtain ⟨name, hname, h⟩ := Option.bind_eq_some_iff.mp h
      cases h
      refine ⟨left, right, htoken, hleft, hright, ?_, hy⟩
      rw [← (lookup_tokenKeys_iff hfield).mp hname, String.toList_ofList]
    next => cases h
  · rintro ⟨left, right, htoken, hleft, hright, hkey, hx⟩
    have hsplit := (hparts left right).mpr ⟨htoken, hleft, hright⟩
    have hname := (lookup_tokenKeys_iff hfield).mpr rfl
    rw [tokenPair?, hsplit]
    simp only [hx, hkey, String.ofList_toList, hname]
    rfl

variable {tokens : List (List Char)}

theorem lastValue_eq_ok_iff (hfield : field ∈ tokenKeys) {x : Binary64} :
    lastValue (tokens.filterMap tokenPair?) field.2 = .ok x ↔ LastGiven tokens field.1 x := by
  simp only [LastGiven, ← tokenPair?_eq_some_iff hfield]
  rw [← lookup_reverse_eq_some_iff, lastValue]
  cases (tokens.filterMap tokenPair?).reverse.lookup field.2 <;> simp

theorem lastValue_eq_error_iff (hfield : field ∈ tokenKeys) {failure : Failure} :
    lastValue (tokens.filterMap tokenPair?) field.2 = .error failure ↔
      failure = .refuse (.noCanonical field.2) ∧ ¬Given tokens field.1 := by
  simp only [Given, ← tokenPair?_eq_some_iff hfield, not_exists, not_and]
  rw [← lookup_reverse_eq_none_iff, lastValue]
  cases (tokens.filterMap tokenPair?).reverse.lookup field.2 <;> simp [eq_comm]

theorem LastGiven.given {key : String} {x : Binary64} (h : LastGiven tokens key x) :
    Given tokens key := by
  obtain ⟨before, token, after, rfl, hgives, -⟩ := h
  exact ⟨token, List.mem_append_right _ List.mem_cons_self, x, hgives⟩

/-- Tokens with the same last values under a key cannot be told apart by its field. -/
theorem lastValue_congr {others : List (List Char)} (hfield : field ∈ tokenKeys)
    (h : ∀ x, LastGiven tokens field.1 x ↔ LastGiven others field.1 x) :
    lastValue (tokens.filterMap tokenPair?) field.2 =
      lastValue (others.filterMap tokenPair?) field.2 := by
  rcases hvalue : lastValue (tokens.filterMap tokenPair?) field.2 with failure | x
  · rcases hother : lastValue (others.filterMap tokenPair?) field.2 with failure' | y
    · rw [((lastValue_eq_error_iff hfield).mp hvalue).1,
        ((lastValue_eq_error_iff hfield).mp hother).1]
    · have hlast := (h y).mpr ((lastValue_eq_ok_iff hfield).mp hother)
      rw [(lastValue_eq_ok_iff hfield).mpr hlast] at hvalue
      cases hvalue
  · have hlast := (h x).mp ((lastValue_eq_ok_iff hfield).mp hvalue)
    exact ((lastValue_eq_ok_iff hfield).mpr hlast).symm

/-- The fields are read in order, up to the first one that is missing. -/
theorem map_toList_ofTokens (text : String) : toList <$> ofTokens text = tokenKeys.mapM fun field =>
    lastValue ((wordsOf text.toList).filterMap tokenPair?) field.2 := by
  simp only [ofTokens, tokenKeys, List.mapM_cons, List.mapM_nil, map_bind, bind_assoc, pure_bind,
    map_pure]
  rfl

theorem toList_injective : Function.Injective (toList (α := Binary64)) := by
  intro r s h
  have hsome := congrArg ofList? h
  rw [ofList?_toList, ofList?_toList] at hsome
  exact Option.some.inj hsome

variable {text : String} {r : RunData Binary64}

theorem lastGiven_of_ofTokens (h : ofTokens text = .ok r) :
    List.Forall₂ (LastGiven (wordsOf text.toList)) clientKeys.toList r.toList := by
  have hfields := map_toList_ofTokens text
  rw [h] at hfields
  obtain ⟨hlength, hvalues⟩ := List.forall₂_iff_zip.mp (forall₂_of_mapM_eq_ok hfields.symm)
  have hkeys : clientKeys.toList = tokenKeys.map Prod.fst := rfl
  rw [hkeys, List.forall₂_map_left_iff, List.forall₂_iff_zip]
  refine ⟨hlength, ?_⟩
  intro field x hmem
  exact (lastValue_eq_ok_iff (List.of_mem_zip hmem).1).mp (hvalues hmem)

theorem first_missing_of_ofTokens {failure : Failure} (h : ofTokens text = .error failure) :
    ∃ before key name after, clientKeys.toList.zip names = before ++ (key, name) :: after ∧
      failure = .refuse (.noCanonical name) ∧
      (∀ field ∈ before, Given (wordsOf text.toList) field.1) ∧
        ¬Given (wordsOf text.toList) key := by
  have hfields := map_toList_ofTokens text
  rw [h] at hfields
  obtain ⟨before, ⟨key, name⟩, after, heq, hbefore, hmissing⟩ :=
    mapM_eq_error_iff.mp hfields.symm
  have hmem : (key, name) ∈ tokenKeys := by
    rw [heq]
    exact List.mem_append_right _ List.mem_cons_self
  obtain ⟨hfailure, hnone⟩ := (lastValue_eq_error_iff hmem).mp hmissing
  refine ⟨before, key, name, after, tokenKeys_eq.symm.trans heq, hfailure, ?_, hnone⟩
  intro field hfield
  obtain ⟨x, hx⟩ := hbefore field hfield
  have hmem : field ∈ tokenKeys := by
    rw [heq]
    exact List.mem_append_left _ hfield
  exact ((lastValue_eq_ok_iff hmem).mp hx).given

theorem exists_ofTokens_iff (text : String) : (∃ r, ofTokens text = .ok r) ↔
    ∀ key ∈ clientKeys.toList, Given (wordsOf text.toList) key := by
  constructor
  · rintro ⟨r, h⟩
    exact forall_mem_of_forall₂ (lastGiven_of_ofTokens h).flip fun _ _ => LastGiven.given
  · intro h
    rcases hread : ofTokens text with failure | r
    · obtain ⟨before, key, name, after, heq, -, -, hnone⟩ := first_missing_of_ofTokens hread
      have hmem : (key, name) ∈ clientKeys.toList.zip names := by
        rw [heq]
        exact List.mem_append_right _ List.mem_cons_self
      exact absurd (h key (List.of_mem_zip hmem).1) hnone
    · exact ⟨r, rfl⟩

theorem ofTokens_congr {other : String} (h : ∀ key ∈ clientKeys.toList, ∀ x,
      LastGiven (wordsOf text.toList) key x ↔ LastGiven (wordsOf other.toList) key x) :
    ofTokens text = ofTokens other := by
  -- As a list, a record is read by one traversal of the keys.
  apply map_injective toList_injective
  dsimp only
  rw [map_toList_ofTokens, map_toList_ofTokens]
  apply mapM_congr
  intro field hfield
  have hkey : field.1 ∈ clientKeys.toList := List.mem_map_of_mem hfield
  exact lastValue_congr hfield (h field.1 hkey)

/-- A summary can be read exactly if some token gives a number under each key of the clients. Then
each field has the number of the last token for its own key, and otherwise the first field without
a token is reported. So texts are read alike, whatever their blanks, if they agree in the numbers of
the last tokens for each key. -/
theorem ofTokens_lookup (text : String) :
    let tokens := wordsOf text.toList
    Spaced tokens text.toList ∧
      ((∃ r, ofTokens text = .ok r) ↔ ∀ key ∈ clientKeys.toList, Given tokens key) ∧
      (∀ r, ofTokens text = .ok r → List.Forall₂ (LastGiven tokens) clientKeys.toList r.toList) ∧
      (∀ failure, ofTokens text = .error failure → ∃ before key name after,
        clientKeys.toList.zip names = before ++ (key, name) :: after ∧
          failure = .refuse (.noCanonical name) ∧ (∀ field ∈ before, Given tokens field.1) ∧
            ¬Given tokens key) ∧
      ∀ (other : String) (others : List (List Char)), Spaced others other.toList →
        (∀ key ∈ clientKeys.toList, ∀ x, LastGiven tokens key x ↔ LastGiven others key x) →
          ofTokens text = ofTokens other := by
  intro tokens
  refine ⟨spaced_wordsOf _, exists_ofTokens_iff text, fun r => lastGiven_of_ofTokens,
    fun failure => first_missing_of_ofTokens, ?_⟩
  intro other others hspaced hlast
  rw [← hspaced.wordsOf_eq] at hlast
  exact ofTokens_congr hlast

def junkText : String :=
  "\x7b \"opsPs\":1, opsPs:2:3 opsPs: :4 opsPs:fast \"opsPs\":5,\n\"thrMBps\":1.5, recsPs:3 " ++
    "\"meanLat\":4 50%Lat:5 95%Lat:6,\t99%Lat:7 minLat:8 \"maxLat\":9 \x7d"

def plainText : String :=
  "maxLat:9 minLat:8 99%Lat:7 95%Lat:6 50%Lat:5 meanLat:4\nrecsPs:3\n\nthrMBps:1.5\u00a0opsPs:5"

theorem ofTokens_lookup_junk : ∃ r, ofTokens junkText = .ok r ∧
    r = ⟨5.0, 1.5, 3.0, 4.0, 5.0, 6.0, 7.0, 8.0, 9.0⟩ ∧
      List.Forall₂ (LastGiven (wordsOf junkText.toList)) clientKeys.toList r.toList ∧
        ofTokens plainText = .ok r := by
  obtain ⟨-, -, hvalues, -, hsame⟩ := ofTokens_lookup junkText
  have hjunk : ofTokens junkText = .ok ⟨5.0, 1.5, 3.0, 4.0, 5.0, 6.0, 7.0, 8.0, 9.0⟩ := by
    decide +kernel
  refine ⟨_, hjunk, rfl, hvalues _ hjunk, ?_⟩
  rw [← hsame plainText _ (spaced_wordsOf _), hjunk]
  intro key hkey x
  obtain ⟨field, hfield, rfl⟩ : ∃ field ∈ tokenKeys, field.1 = key := List.mem_map.mp hkey
  have hlast : ∀ field ∈ tokenKeys,
      lastValue ((wordsOf junkText.toList).filterMap tokenPair?) field.2 =
        lastValue ((wordsOf plainText.toList).filterMap tokenPair?) field.2 := by
    decide +kernel
  rw [← lastValue_eq_ok_iff hfield, ← lastValue_eq_ok_iff hfield, hlast field hfield]

end RunData

end ClusterBench
