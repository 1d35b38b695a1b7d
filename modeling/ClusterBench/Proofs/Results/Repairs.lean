import ClusterBench.Proofs.Json.Decoded
import ClusterBench.Proofs.Json.Phases
import ClusterBench.Proofs.Json.Thinned
import ClusterBench.Proofs.Text.Lines
import ClusterBench.Results.RunData

/-!
# Repairs of a summary that is JSON

Joining the lines of a document again drops line ends only. A comma that a line of the median gets
is dropped again if what follows closes the object, and otherwise it breaks the document: at the end
of a line there is no place for a comma, unless it is in excess.
-/

namespace ClusterBench

open Json TrailingCommas

theorem closesNext_iff {cs : List Char} :
    closesNext cs ↔ upcoming cs = some ']' ∨ upcoming cs = some '\x7d' := by
  induction cs with
  | nil => simp [closesNext, upcoming]
  | cons c cs ih =>
    by_cases hblank : isBlank c
    · rw [upcoming_blank hblank, ← ih, closesNext, closesNext, List.dropWhile_cons_of_pos hblank]
    · rw [Bool.not_eq_true] at hblank
      rw [upcoming_cons hblank, closesNext,
        List.dropWhile_cons_of_neg (by rw [hblank]; exact Bool.false_ne_true)]
      split <;> simp_all

theorem upcoming_append (as bs : List Char) :
    upcoming (as ++ bs) = (upcoming as).or (upcoming bs) := List.find?_append

theorem closesNext_append {as cs ds : List Char} (h : closesNext ds → closesNext cs)
    (hds : closesNext (as ++ ds)) : closesNext (as ++ cs) := by
  rw [closesNext_iff, upcoming_append] at hds ⊢
  cases has : upcoming as with
  | none =>
    rw [has, Option.none_or, ← closesNext_iff] at hds
    rw [Option.none_or, ← closesNext_iff]
    exact h hds
  | some c =>
    rw [has] at hds
    exact hds

def Json.Phase.place : Phase → Place
  | .quoted => .quoted
  | .escaped => .escaped
  | _ => .outside

theorem place_eq_outside {phase : Phase} :
    phase.place = .outside ↔ phase ≠ .quoted ∧ phase ≠ .escaped := by
  cases phase <;> simp [Phase.place]

theorem place_nextOutside {phase next : Phase} {c : Char} (h : phase.place = .outside)
    (hnext : phase.nextOutside c = some next) : next.place = Place.outside.next c := by
  by_cases hquote : c = '"'
  · subst hquote
    cases phase <;> cases hnext <;> rfl
  · have hplace : Place.outside.next c = .outside := by
      rw [Place.next]
      exact hquote
    rw [hplace]
    rw [Phase.nextOutside] at hnext
    split_ifs at hnext <;> cases hnext <;> first | rfl | exact h

theorem place_next {phase next : Phase} {c : Char} (h : phase.next c = some next) :
    next.place = phase.place.next c := by
  match phase with
  | .quoted =>
    rcases Phase.next_quoted_cases h with ⟨rfl, rfl⟩ | ⟨rfl, rfl⟩ | ⟨hslash, hquote, rfl⟩
    · rfl
    · rfl
    · rw [Phase.place, Place.next]
      · exact hslash
      · exact hquote
  | .escaped =>
    rw [Phase.eq_quoted_of_escaped h]
    rfl
  | .awaiting | .demanding | .within | .behind =>
    rw [Phase.next_outside (by decide)] at h
    exact place_nextOutside rfl h

theorem not_closesNext_of_demanding {cs : List Char} (h : Phase.demanding.Accepts cs) :
    ¬closesNext cs := by
  obtain ⟨c, hc, hmem⟩ := Phase.upcoming_of_demanding h
  rw [closesNext_iff, hc]
  rintro (h | h) <;> (cases h; simp at hmem)

/-- Nothing is dropped from the start of a document, whatever follows it. -/
theorem stripFrom_run {phase next : Phase} {as cs ds : List Char} (h : phase.run as = some next)
    (hcs : next.Accepts cs) (hds : closesNext ds → closesNext cs) :
    stripFrom phase.place (as ++ ds) = as ++ stripFrom next.place ds := by
  induction as generalizing phase with
  | nil =>
    cases h
    rfl
  | cons a as ih =>
    obtain ⟨mid, hmid, hrun⟩ := Option.bind_eq_some_iff.mp h
    have haccepts : mid.Accepts (as ++ cs) := Phase.accepts_append_iff.mpr ⟨next, hrun, hcs⟩
    have hkept : ¬(phase.place = .outside ∧ a = ',' ∧ closesNext (as ++ ds)) := by
      rintro ⟨hplace, rfl, hcloses⟩
      obtain ⟨-, rfl⟩ := Phase.eq_demanding_of_comma (place_eq_outside.mp hplace) hmid
      exact not_closesNext_of_demanding haccepts (closesNext_append hds hcloses)
    rw [List.cons_append, stripFrom, if_neg hkept, ← place_next hmid, ih hrun, List.cons_append]

/-- A blank or a closing bracket stays the next character, and a comma does so unless it is
dropped. -/
theorem upcoming_stripFrom (cs : List Char) :
    upcoming (stripFrom .outside cs) = upcoming cs ∨ closesNext (stripFrom .outside cs) := by
  induction cs with
  | nil => exact .inl rfl
  | cons c cs ih =>
    by_cases hdropped : Place.outside = .outside ∧ c = ',' ∧ closesNext cs
    · rw [stripFrom, if_pos hdropped]
      right
      rcases ih with heq | hcloses
      · rw [closesNext_iff, heq, ← closesNext_iff]
        exact hdropped.2.2
      · exact hcloses
    · rw [stripFrom, if_neg hdropped]
      by_cases hblank : isBlank c
      · have hplace : Place.outside.next c = .outside := by
          rw [Place.next]
          rintro rfl
          cases hblank
        rw [hplace, upcoming_blank hblank, upcoming_blank hblank, closesNext_iff,
          upcoming_blank hblank, ← closesNext_iff]
        exact ih
      · rw [Bool.not_eq_true] at hblank
        rw [upcoming_cons hblank, upcoming_cons hblank]
        exact .inl rfl

/-- A comma behind a value breaks the document if a value or nothing else could follow there. -/
theorem not_accepts_of_comma {phase : Phase} {cs ds : List Char} (hphase : phase.place = .outside)
    (hcs : phase.Accepts cs) (hblank : ∀ c ∈ cs.head?, isBlank c)
    (heq : upcoming ds = upcoming cs) : ¬phase.Accepts (',' :: stripFrom .outside ds) := by
  intro haccepts
  obtain ⟨next, hnext, hdemanding⟩ := Phase.accepts_cons_iff.mp haccepts
  obtain ⟨hends, rfl⟩ := Phase.eq_demanding_of_comma (place_eq_outside.mp hphase) hnext
  obtain ⟨c, hc, hmem⟩ := Phase.upcoming_of_demanding hdemanding
  rcases upcoming_stripFrom ds with hsame | hcloses
  · rw [hsame, heq] at hc
    exact hmem (Phase.upcoming_of_ends hends hcs hblank hc)
  · exact not_closesNext_of_demanding hdemanding hcloses

namespace RunData

/-- A line of the median that has no comma at its end. -/
def LacksComma (line : List Char) : Prop :=
  "\"Median".toList <+: line ∧ line.getLast? ≠ some ','

/-- Behind every line of the median that has no comma the object ends. -/
def MedianSettled (lines : List (List Char)) : Prop :=
  ∀ line after, line :: after <:+ lines → LacksComma line → closesNext (['\n'].intercalate after)

instance (line : List Char) : Decidable (LacksComma line) :=
  inferInstanceAs (Decidable (_ ∧ _))

theorem repairLine_of_lacksComma {line : List Char} (h : LacksComma line) :
    repairLine line = line ++ [','] := by
  obtain ⟨hbegins, hlast⟩ := h
  rw [repairLine, if_pos]
  rw [Bool.and_eq_true, List.isPrefixOf_iff_prefix, bne_iff_ne]
  exact ⟨hbegins, hlast⟩

theorem repairLine_of_not_lacksComma {line : List Char} (h : ¬LacksComma line) :
    repairLine line = line := by
  rw [repairLine, if_neg]
  rw [Bool.and_eq_true, List.isPrefixOf_iff_prefix, bne_iff_ne]
  exact h

theorem medianSettled_cons {line : List Char} {lines : List (List Char)} :
    MedianSettled (line :: lines) ↔
      (LacksComma line → closesNext (['\n'].intercalate lines)) ∧ MedianSettled lines := by
  constructor
  · intro h
    exact ⟨h line lines List.suffix_rfl,
      fun other after hsuffix => h other after (hsuffix.trans (List.suffix_cons line lines))⟩
  · rintro ⟨hline, hlines⟩ other after hsuffix
    rcases List.suffix_cons_iff.mp hsuffix with heq | hsuffix
    · obtain ⟨rfl, rfl⟩ := List.cons.inj heq
      exact hline
    · exact hlines other after hsuffix

def behindFeeds (lines : List (List Char)) : List Char := lines.flatMap (List.cons '\n')

theorem upcoming_behindFeeds (lines : List (List Char)) :
    upcoming (behindFeeds lines) = upcoming (['\n'].intercalate lines) := by
  cases lines with
  | nil => rfl
  | cons line lines =>
    rw [intercalate_cons, behindFeeds, List.flatMap_cons, List.cons_append]
    exact upcoming_blank rfl _

/-- Repairs do not change the next character. -/
theorem upcoming_repaired (lines : List (List Char)) :
    upcoming (behindFeeds (lines.map repairLine)) = upcoming (behindFeeds lines) := by
  induction lines with
  | nil => rfl
  | cons line lines ih =>
    have hfeed (l : List Char) (ls : List (List Char)) :
        upcoming (behindFeeds (l :: ls)) = (upcoming l).or (upcoming (behindFeeds ls)) := by
      rw [behindFeeds, List.flatMap_cons, List.cons_append, upcoming_blank rfl, upcoming_append]
      rfl
    rw [List.map_cons, hfeed, hfeed, ih]
    by_cases hlacks : LacksComma line
    · obtain ⟨tail, rfl⟩ := hlacks.1
      rw [repairLine_of_lacksComma hlacks]
      rfl
    · rw [repairLine_of_not_lacksComma hlacks]

theorem behindFeeds_cons (line : List Char) (lines : List (List Char)) :
    behindFeeds (line :: lines) = ('\n' :: line) ++ behindFeeds lines := List.flatMap_cons

theorem head_behindFeeds (lines : List (List Char)) :
    ∀ c ∈ (behindFeeds lines).head?, isBlank c := by
  cases lines with
  | nil => exact nofun
  | cons line lines =>
    rintro c ⟨⟩
    rfl

/-- A line feed stands outside of quotes, and so does the end of a document. -/
theorem place_of_accepts {phase : Phase} {lines : List (List Char)}
    (h : phase.Accepts (behindFeeds lines)) : phase.place = .outside := by
  cases lines with
  | nil =>
    obtain ⟨last, hrun, hends⟩ := h
    cases hrun
    exact place_eq_outside.mpr (Phase.outside_of_ends hends)
  | cons line lines =>
    obtain ⟨next, hnext, -⟩ := Phase.accepts_cons_iff.mp h
    cases phase <;> first | rfl | cases hnext

/-- Repaired lines without trailing commas are the lines as they were if the median is settled, and
otherwise they are no document. -/
def Restores (phase : Phase) (lines : List (List Char)) : Prop :=
  (MedianSettled lines →
    stripFrom phase.place (behindFeeds (lines.map repairLine)) = behindFeeds lines) ∧
  (¬MedianSettled lines →
    ¬phase.Accepts (stripFrom phase.place (behindFeeds (lines.map repairLine))))

section Step

variable {phase next : Phase} {line : List Char} {lines : List (List Char)}

/-- A line that comes out as it was. -/
theorem Restores.cons_of_kept (h : Restores next lines)
    (hrun : phase.run ('\n' :: line) = some next)
    (hline : LacksComma line → closesNext (['\n'].intercalate lines))
    (hkept : stripFrom phase.place (behindFeeds ((line :: lines).map repairLine)) =
      ('\n' :: line) ++ stripFrom next.place (behindFeeds (lines.map repairLine))) :
    Restores phase (line :: lines) := by
  have hsettled : MedianSettled (line :: lines) ↔ MedianSettled lines := by
    rw [medianSettled_cons, and_iff_right hline]
  rw [Restores, hkept, hsettled, behindFeeds_cons]
  constructor
  · intro hlines
    rw [h.1 hlines]
  · intro hlines
    rw [Phase.accepts_append_of hrun]
    exact h.2 hlines

/-- A line with a comma that stays. -/
theorem Restores.cons_of_broken (hlacks : LacksComma line)
    (hopen : ¬closesNext (['\n'].intercalate lines))
    (hbroken :
      ¬phase.Accepts (stripFrom phase.place (behindFeeds ((line :: lines).map repairLine)))) :
    Restores phase (line :: lines) := by
  refine ⟨fun hsettled => ?_, fun _ => hbroken⟩
  exact absurd ((medianSettled_cons.mp hsettled).1 hlacks) hopen

theorem closesNext_repaired (lines : List (List Char)) :
    closesNext (behindFeeds (lines.map repairLine)) ↔ closesNext (['\n'].intercalate lines) := by
  rw [closesNext_iff, closesNext_iff, upcoming_repaired, upcoming_behindFeeds]

/-- The text behind a line goes on as it did before. -/
theorem closesNext_of_repaired (h : closesNext (behindFeeds (lines.map repairLine))) :
    closesNext (behindFeeds lines) := by
  rwa [closesNext_iff, ← upcoming_repaired, ← closesNext_iff]

theorem stripFrom_inserted (hrun : phase.run ('\n' :: line) = some next)
    (hnext : next.Accepts (behindFeeds lines)) (hlacks : LacksComma line) :
    stripFrom phase.place (behindFeeds ((line :: lines).map repairLine)) =
      ('\n' :: line) ++
        stripFrom .outside (',' :: behindFeeds (lines.map repairLine)) := by
  have hcomma : closesNext (',' :: behindFeeds (lines.map repairLine)) →
      closesNext (behindFeeds lines) := by
    rw [closesNext_iff, upcoming_cons rfl]
    rintro (h | h) <;> cases h
  rw [List.map_cons, behindFeeds_cons, repairLine_of_lacksComma hlacks, ← List.cons_append,
    List.append_assoc, List.singleton_append, stripFrom_run hrun hnext hcomma,
    place_of_accepts hnext]

theorem Restores.cons (h : Restores next lines) (hrun : phase.run ('\n' :: line) = some next)
    (hnext : next.Accepts (behindFeeds lines)) : Restores phase (line :: lines) := by
  have hplace := place_of_accepts hnext
  by_cases hlacks : LacksComma line
  · have hstrip := stripFrom_inserted hrun hnext hlacks
    by_cases hcloses : closesNext (['\n'].intercalate lines)
    · have hdropped := (closesNext_repaired lines).mpr hcloses
      rw [stripFrom, if_pos ⟨rfl, rfl, hdropped⟩, ← hplace] at hstrip
      exact h.cons_of_kept hrun (fun _ => hcloses) hstrip
    · have hinserted := (closesNext_repaired lines).not.mpr hcloses
      rw [stripFrom, if_neg fun hcomma => hinserted hcomma.2.2] at hstrip
      apply Restores.cons_of_broken hlacks hcloses
      rw [hstrip, Phase.accepts_append_of hrun]
      exact not_accepts_of_comma hplace hnext (head_behindFeeds lines) (upcoming_repaired lines)
  · apply h.cons_of_kept hrun (fun hlacking => absurd hlacking hlacks)
    rw [List.map_cons, behindFeeds_cons, repairLine_of_not_lacksComma hlacks]
    exact stripFrom_run hrun hnext closesNext_of_repaired

end Step

theorem restores {lines : List (List Char)} {phase : Phase}
    (haccepts : phase.Accepts (behindFeeds lines)) : Restores phase lines := by
  induction lines generalizing phase with
  | nil =>
    have hsettled : MedianSettled [] := by
      intro line after hsuffix
      cases List.suffix_nil.mp hsuffix
    exact ⟨fun _ => rfl, fun hnot => absurd hsettled hnot⟩
  | cons line lines ih =>
    rw [behindFeeds_cons] at haccepts
    obtain ⟨next, hrun, hnext⟩ := Phase.accepts_append_iff.mp haccepts
    exact (ih hnext).cons hrun hnext

/-- The lines of a text one after the other are the text without some line ends. -/
theorem thinned_lines (cs : List Char) : Thinned cs (['\n'].intercalate (linesOf cs)) := by
  induction cs using lines_induction with
  | last line h =>
    rw [linesOf_of_notMem h]
    by_cases hnil : line = []
    · rw [if_pos hnil, hnil]
      exact .nil
    · rw [if_neg hnil]
      simpa using Thinned.refl line
  | more line rest h ih =>
    have hchomp : ∀ {cs ds}, Thinned cs ds → Thinned (line ++ cs) (chomp line ++ ds) := by
      intro cs ds hcs
      by_cases hreturn : line.getLast? = some '\r'
      · obtain ⟨before, rfl⟩ := List.getLast?_eq_some_iff.mp hreturn
        rw [chomp_concat, List.append_assoc]
        exact (Thinned.drop (.inr rfl) hcs).append_left before
      · rw [chomp_of_ne hreturn]
        exact hcs.append_left line
    rw [linesOf_line h, intercalate_cons]
    apply hchomp
    cases hlines : linesOf rest with
    | nil =>
      rw [hlines] at ih
      exact .drop (.inl rfl) ih
    | cons next lines =>
      rw [hlines, intercalate_cons] at ih
      exact .keep _ ih

theorem thorough_decode : Decoder.Thorough decode := by
  apply Decoder.thorough_record
  simp only [List.forall_mem_cons]
  refine ⟨?_, ?_, ?_, ?_, ?_, ?_, ?_, ?_, ?_, nofun⟩ <;>
    exact Decoder.thorough_field Decoder.thorough_real _ _ _

theorem stripFrom_feed (cs : List Char) :
    stripFrom .outside ('\n' :: cs) = '\n' :: stripFrom .outside cs := by
  rw [stripFrom, if_neg (by simp)]
  rfl

/-- What is left of the repairs of a document. -/
theorem repaired_of_document {text : String} {d : Document} (h : text.toList = d.chars false) :
    ∃ d' : Document, d'.value.node = d.value.node ∧
      (MedianSettled (linesOf text.toList) → repaired text = d'.chars false) ∧
      (¬MedianSettled (linesOf text.toList) →
        ∀ d'' : Document, repaired text ≠ d''.chars false) := by
  have hthinned := thinned_lines text.toList
  rw [h] at hthinned
  obtain ⟨d', hjoined, hnode⟩ := d.exists_of_thinned hthinned
  rw [← h] at hjoined
  refine ⟨d', hnode, ?_⟩
  rw [repaired]
  cases hlines : linesOf text.toList with
  | nil =>
    have hpos := d'.value.length_pos false
    rw [hlines] at hjoined
    have hlength := congrArg List.length hjoined
    simp [Document.chars] at hlength
    omega
  | cons line lines =>
    rw [hlines] at hjoined
    have hfeeds (lines : List (List Char)) (line : List Char) :
        behindFeeds (line :: lines) = '\n' :: ['\n'].intercalate (line :: lines) := by
      rw [intercalate_cons, behindFeeds_cons]
      rfl
    have hfeed : Phase.awaiting.next '\n' = some .awaiting := by decide
    have haccepts : Phase.awaiting.Accepts (behindFeeds (line :: lines)) := by
      rw [hfeeds, hjoined]
      exact Phase.accepts_cons_iff.mpr ⟨_, hfeed, Phase.accepts_document d'⟩
    obtain ⟨hsettled, hnot⟩ := restores haccepts
    simp only [List.map_cons, hfeeds, Phase.place, stripFrom_feed] at hsettled hnot
    rw [List.map_cons]
    constructor
    · intro hmedian
      rw [← hjoined]
      exact (List.cons.inj (hsettled hmedian)).2
    · intro hmedian d'' hd
      apply hnot hmedian
      rw [hd]
      exact Phase.accepts_cons_iff.mpr ⟨_, hfeed, Phase.accepts_document d''⟩

/-- A summary that is JSON as it stands is read as the same record if its median is settled.
Otherwise the comma that the median gets breaks it. -/
theorem ofJson_of_ofText {text : String} {r : RunData Binary64}
    (h : Decoder.ofText decode text = .ok r) :
    (MedianSettled (linesOf text.toList) → ofJson text = .ok r) ∧
      (¬MedianSettled (linesOf text.toList) →
        ∃ fault, ofJson text = .error ⟨["parse btrdb results"], .json fault⟩) := by
  obtain ⟨d, htext, hvalue⟩ := Decoder.exists_document_of_ok thorough_decode h
  obtain ⟨d', hnode, hsettled, hnot⟩ := repaired_of_document htext
  rw [ofJson]
  constructor
  · intro hmedian
    rw [hsettled hmedian, Decoder.document_chars, hnode, hvalue]
  · intro hmedian
    cases hread : Decoder.document decode ((repaired text).map some) with
    | ok read =>
      obtain ⟨d'', hrepaired, -⟩ := Decoder.exists_document_of_ok thorough_decode hread
      exact absurd hrepaired (hnot hmedian d'')
    | error fault => exact ⟨fault, rfl⟩

def behindMedian (blanks : String) : List Char :=
  ["\x7b", "\"OpsTput\": 1.5,", "\"DataTput\": 2,", "\"Records per second\": 3,",
    "\"Mean latency\": 4,", "\"Median latency\": 5," ++ blanks, "\"95% latency\": 6,",
    "\"99% latency\": 7,", "\"Min latency\": 8,", "\"Max latency\": 9", "\x7d"].flatMap
      fun line => line.toList ++ ['\n']

theorem medianSettled_behindMedian : MedianSettled (linesOf (behindMedian "")) := by
  have hcommas : ∀ line ∈ linesOf (behindMedian ""), ¬LacksComma line := by decide +kernel
  exact fun line after hsuffix hlacks =>
    absurd hlacks (hcommas line (hsuffix.subset List.mem_cons_self))

theorem not_medianSettled_behindMedian : ¬MedianSettled (linesOf (behindMedian " ")) := by
  have hmedian : "\"Median latency\": 5, ".toList :: (linesOf (behindMedian " ")).drop 6 <:+
      linesOf (behindMedian " ") ∧ LacksComma "\"Median latency\": 5, ".toList ∧
        ¬closesNext (['\n'].intercalate ((linesOf (behindMedian " ")).drop 6)) := by
    decide +kernel
  exact fun hsettled => hmedian.2.2 (hsettled _ _ hmedian.1 hmedian.2.1)

/-- A blank behind the comma of the median decides whether a summary is read. -/
theorem ofJson_behindMedian : ∃ r fault,
    Decoder.ofText decode (String.ofList (behindMedian " ")) = .ok r ∧
      ofJson (String.ofList (behindMedian "")) = .ok r ∧
      ofJson (String.ofList (behindMedian " ")) =
        .error ⟨["parse btrdb results"], .json fault⟩ := by
  have hread : (Decoder.document decode ((behindMedian " ").map some)).isOk = true ∧
      Decoder.document decode ((behindMedian "").map some) =
        Decoder.document decode ((behindMedian " ").map some) := by
    decide +kernel
  obtain ⟨r, hr⟩ := exists_eq_ok_of_isOk hread.1
  have hof (blanks : String)
      (h : Decoder.document decode ((behindMedian blanks).map some) = .ok r) :
      Decoder.ofText decode (String.ofList (behindMedian blanks)) = .ok r := by
    rw [Decoder.ofText, String.toList_ofList, h]
  obtain ⟨fault, hfault⟩ := (ofJson_of_ofText (hof " " hr)).2 (by
    rw [String.toList_ofList]
    exact not_medianSettled_behindMedian)
  refine ⟨r, fault, hof " " hr, ?_, hfault⟩
  apply (ofJson_of_ofText (hof "" (hread.2.trans hr))).1
  rw [String.toList_ofList]
  exact medianSettled_behindMedian

end RunData

end ClusterBench
