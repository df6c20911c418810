import Haki.Properties.Rendering
import Haki.Sdk.Typescript

/-!
# Parity of the two SDKs

Both SDKs print the same block when every value they print is written in the
same way by both languages, every value they test is true in both or in
neither, and every value with a default is missing, null, or true.  The value
of a fact is written by `str` in one and by `JSON.stringify` in the other:
where it is an object, the lines are the same when it has no entry and only
then.
-/

namespace Haki

open Data

/-! ## Values -/

/-- Both languages write the value in the same way. -/
def SameText (engine : JsEngine) : JsValue → Prop
  | some (.str _) => True
  | some (.num n) => engine.numberText n = n.repr
  | _ => False

/-- The value is true in a condition of both languages, or of neither. -/
def SameTruth (v : JsValue) : Prop := v ≠ some (.arr []) ∧ v ≠ some (.obj [])

/-- The value is missing or null. -/
def Nullish (v : JsValue) : Prop := v = none ∨ v = some .null

/-- A default stands for the value in both languages, or they write it in the same way. -/
def SameDefault (engine : JsEngine) (v : JsValue) : Prop :=
  Nullish v ∨ (truthy v ∧ SameText engine v)

/-- A part of a line that is written when a condition is true. -/
def SamePart (engine : JsEngine) (condition value : JsValue) : Prop :=
  SameTruth condition ∧ (truthy condition → SameText engine value)

/-- `JSON.stringify` and `str` of the value are the same. -/
def SameValue (engine : JsEngine) (isPrintable : Char → Bool) (v : JsValue) : Prop :=
  engine.jsonText v = (v.getD .null).pyStr isPrintable

section Values

variable {engine : JsEngine} {v w : JsValue} (isPrintable : Char → Bool)

theorem SameText.text (h : SameText engine v) :
    engine.text v = some ((v.getD .null).pyStr isPrintable) := by
  rcases v with _ | a
  · cases h
  · cases a with
    | str s => rfl
    | num n => exact congrArg some h
    | _ => cases h

theorem SameTruth.truthy (h : SameTruth v) : truthy v = isTruthy (v.getD .null) := by
  rcases v with _ | a
  · rfl
  · cases a with
    | arr items =>
      cases items with
      | nil => exact absurd rfl h.1
      | cons a as => rfl
    | obj entries =>
      cases entries with
      | nil => exact absurd rfl h.2
      | cons e es => rfl
    | _ => rfl

theorem SameText.truth (h : SameText engine v) : SameTruth v := by
  constructor <;> rintro rfl <;> cases h

theorem Nullish.isTruthy (h : Nullish v) : isTruthy (v.getD .null) = false := by
  rcases h with rfl | rfl <;> rfl

theorem Nullish.sameTruth (h : Nullish v) : SameTruth v := by
  rcases h with rfl | rfl <;> exact ⟨by rintro ⟨⟩, by rintro ⟨⟩⟩

theorem Nullish.samePart (h : Nullish v) : SamePart engine v w :=
  ⟨h.sameTruth, by rcases h with rfl | rfl <;> rintro ⟨⟩⟩

theorem Nullish.nullish (h : Nullish v) : nullish v w = w := by
  rcases h with rfl | rfl <;> rfl

theorem nullish_of_truthy (h : truthy v) : nullish v w = v := by
  rcases v with _ | a
  · cases h
  · cases a with
    | null => cases h
    | _ => rfl

/-- A value behind which a default stands. -/
theorem SameDefault.text (h : SameDefault engine v) {b : PyJson}
    (hw : Nullish v → engine.text w = some (b.pyStr isPrintable)) :
    engine.text (nullish v w) = some ((orJson (v.getD .null) b).pyStr isPrintable) := by
  rcases h with hnull | ⟨htruthy, hsame⟩
  · rw [hnull.nullish, orJson, hnull.isTruthy, if_neg (by decide)]
    exact hw hnull
  · rw [nullish_of_truthy htruthy, orJson, ← hsame.truth.truthy, if_pos htruthy]
    exact hsame.text isPrintable

theorem SamePart.text {template : String → String} (h : SamePart engine v w) :
    engine.whenTruthy v w template = some (if isTruthy (v.getD .null) then
      template ((w.getD .null).pyStr isPrintable) else "") := by
  rw [JsEngine.whenTruthy, ← h.1.truthy]
  split
  next htruthy => rw [(h.2 htruthy).text isPrintable, Option.map_some]
  next => rfl

theorem getD_eq_str {s : String} : v.getD .null = .str s ↔ v = some (.str s) := by
  cases v <;> simp

end Values

/-! ## Items -/

/-- Both languages read the same date of an item. -/
structure SameDate (engine : JsEngine) (item : Dict) (shortKey dateKey relativeKey : String) :
    Prop where
  short : SameDefault engine (item.value? shortKey)
  date : Nullish (item.value? shortKey) → SameDefault engine (item.value? dateKey)
  relative : SamePart engine (item.value? relativeKey) (item.value? relativeKey)

/-- Both languages write the same period behind the date of a fact.  Python appends it to a text
only. -/
structure SamePeriod (engine : JsEngine) (fact : Dict) : Prop where
  truth : SameTruth (fact.value? "temporal_range")
  start : truthy (fact.value? "temporal_range") →
    SameText engine (property (fact.value? "temporal_range") "start")
  stop : truthy (fact.value? "temporal_range") →
    SameText engine (property (fact.value? "temporal_range") "end")
  date : truthy (fact.value? "temporal_range") → truthy (fact.value? "valid_from_relative") ∨
    ∃ s, orJson (fact.get "valid_from_short") (orJson (fact.get "valid_from")
      (.str "unknown date")) = .str s

/-- Both languages write the same markers behind a fact. -/
structure SameMarker (engine : JsEngine) (fact : Dict) : Prop where
  last : fact.value? "freshness" = some (.str "unconfirmed") ∨
    fact.value? "freshness" = some (.str "stale") →
    SameDefault engine (fact.value? "last_confirmed")
  attributed : SamePart engine (fact.value? "attributed_to") (fact.value? "attributed_to")
  contested : SamePart engine (fact.value? "contested") (fact.value? "conflict_id")
  reclassified : SameTruth (fact.value? "auto_reclassified")

/-- Both languages write the same line for a fact, but for its value. -/
structure SameFact (engine : JsEngine) (fact : Dict) : Prop where
  date : SameDate engine fact "valid_from_short" "valid_from" "valid_from_relative"
  period : SamePeriod engine fact
  marker : SameMarker engine fact
  ref : SameDefault engine (fact.value? "ref")
  predicate : SameText engine (fact.value? "predicate")

/-- Both languages write the same line for an episode. -/
structure SameEpisode (engine : JsEngine) (episode : Dict) : Prop where
  date : SameDate engine episode "occurred_at_short" "occurred_at" "occurred_at_relative"
  ref : SameDefault engine (episode.value? "ref")
  kind : SameText engine (episode.value? "kind")
  excerpt : SameText engine (episode.value? "excerpt")
  neighbor : SameTruth (episode.value? "context_neighbor")

/-- The server's line of an item, when there is one, is a text. -/
structure SameLine (item : Dict) : Prop where
  truth : SameTruth (item.value? "line")
  text : truthy (item.value? "line") → ∃ s, item.value? "line" = some (.str s)

/-- An item whose line an SDK writes. -/
def Unlined (item : Dict) : Prop := truthy (item.value? "line") = false

section Items

variable {engine : JsEngine} {printer : Printer} {isPrintable : Char → Bool}
  (hstr : printer.strJson = Json.pyStr isPrintable)

include hstr

theorem SameDate.text {item : Dict} {short date relative : String}
    (h : SameDate engine item short date relative) :
    engine.promptDate item short date relative =
      some (if isTruthy (item.get relative) then
        Sdk.dated (printer.strJson (orJson (item.get short) (orJson (item.get date)
          (.str "unknown date")))) (printer.strJson (item.get relative))
      else printer.strJson (orJson (item.get short) (orJson (item.get date)
        (.str "unknown date")))) := by
  have htext : engine.text (nullish (item.value? short)
      (nullish (item.value? date) (some (.str "unknown date")))) =
      some ((orJson (item.get short) (orJson (item.get date) (.str "unknown date"))).pyStr
        isPrintable) :=
    h.short.text isPrintable fun hnull ↦ (h.date hnull).text isPrintable fun _ ↦ rfl
  have htruth : truthy (item.value? relative) = isTruthy (item.get relative) := h.relative.1.truthy
  rw [JsEngine.promptDate, htext, Option.bind_eq_bind, Option.bind_some, ← htruth, hstr]
  split
  next htruthy => rw [(h.relative.2 htruthy).text isPrintable, Option.map_some]; rfl
  next => rfl

/-- The date of a fact, as one text. -/
theorem strJson_promptDate (fact : Dict) :
    printer.strJson (printer.promptDate fact) =
      if isTruthy (fact.get "valid_from_relative") then
        Sdk.dated (printer.strJson (orJson (fact.get "valid_from_short") (orJson
          (fact.get "valid_from") (.str "unknown date"))))
          (printer.strJson (fact.get "valid_from_relative"))
      else printer.strJson (orJson (fact.get "valid_from_short") (orJson (fact.get "valid_from")
        (.str "unknown date"))) := by
  rw [Printer.promptDate, hstr]
  split <;> rfl

theorem SameFact.validFrom {fact : Dict} (h : SameFact engine fact) :
    ∃ validFrom, printer.promptValidFrom fact = some validFrom ∧
      engine.promptValidFrom fact = some (printer.strJson validFrom) := by
  have hdate := (h.date.text hstr).trans (congrArg some (strJson_promptDate hstr fact).symm)
  have htruth : truthy (fact.value? "temporal_range") = isTruthy (fact.get "temporal_range") :=
    h.period.truth.truthy
  rw [JsEngine.promptValidFrom, Printer.promptValidFrom, hdate, Option.bind_eq_bind,
    Option.bind_some, ← htruth]
  by_cases htruthy : truthy (fact.value? "temporal_range")
  · have hstart := (h.period.start htruthy).text isPrintable
    have hstop := (h.period.stop htruthy).text isPrintable
    obtain ⟨entries, hrange⟩ : ∃ entries, fact.value? "temporal_range" = some (.obj entries) := by
      have hsame := h.period.start htruthy
      generalize fact.value? "temporal_range" = range at hsame
      rcases range with _ | range
      · cases hsame
      · cases range with
        | obj entries => exact ⟨entries, rfl⟩
        | _ => cases hsame
    obtain ⟨s, hs⟩ : ∃ s, printer.promptDate fact = .str s := by
      rw [Printer.promptDate]
      rcases h.period.date htruthy with hrelative | ⟨s, hs⟩
      · have hrelative : isTruthy (fact.get "valid_from_relative") :=
          h.date.relative.1.truthy.symm.trans hrelative
        exact ⟨_, if_pos hrelative⟩
      · rw [hs]
        split
        · exact ⟨_, rfl⟩
        · exact ⟨s, rfl⟩
    have hget : fact.get "temporal_range" = .obj entries := by rw [Dict.get, hrange]; rfl
    rw [if_pos htruthy, if_pos htruthy, hstart, hstop, hget, hs, hrange, hstr]
    exact ⟨_, rfl, rfl⟩
  · rw [if_neg htruthy, if_neg htruthy]
    exact ⟨_, rfl, rfl⟩

theorem SameMarker.text {fact : Dict} (h : SameMarker engine fact) :
    engine.promptMarker fact = some (printer.promptMarker fact) := by
  have hlast (hfreshness : fact.value? "freshness" = some (.str "unconfirmed") ∨
      fact.value? "freshness" = some (.str "stale")) :
      engine.text (nullish (fact.value? "last_confirmed") (some (.str "an unknown date"))) =
        some ((orJson (fact.get "last_confirmed") (.str "an unknown date")).pyStr isPrintable) :=
    (h.last hfreshness).text isPrintable fun _ ↦ rfl
  have hfreshness (s : String) :
      fact.get "freshness" = .str s ↔ fact.value? "freshness" = some (.str s) := getD_eq_str
  have hreclassified : truthy (fact.value? "auto_reclassified") =
      isTruthy (fact.get "auto_reclassified") := h.reclassified.truthy
  rw [JsEngine.promptMarker, Printer.promptMarker, h.attributed.text isPrintable,
    h.contested.text isPrintable, hreclassified, hstr]
  simp only [hfreshness]
  by_cases hunconfirmed : fact.value? "freshness" = some (.str "unconfirmed")
  · rw [if_pos hunconfirmed, if_pos hunconfirmed, hlast (.inl hunconfirmed)]
    rfl
  · by_cases hstale : fact.value? "freshness" = some (.str "stale")
    · rw [if_neg hunconfirmed, if_neg hunconfirmed, if_pos hstale, if_pos hstale,
        hlast (.inr hstale)]
      rfl
    · rw [if_neg hunconfirmed, if_neg hunconfirmed, if_neg hstale, if_neg hstale]
      rfl

omit hstr in
/-- Both SDKs print a line of the server as it is. -/
theorem SameLine.printed {item : Dict} (h : SameLine item) (hlined : ¬ Unlined item) :
    ∃ s, truthy (item.value? "line") ∧ isTruthy (item.get "line") ∧
      item.value? "line" = some (.str s) ∧ item.get "line" = .str s := by
  have htruthy : truthy (item.value? "line") := (Bool.not_eq_false _).mp hlined
  obtain ⟨s, hs⟩ := h.text htruthy
  exact ⟨s, htruthy, h.truth.truthy.symm.trans htruthy, hs, getD_eq_str.mpr hs⟩

/-- What the SDKs print for a fact: the same line, or lines that differ in the value only. -/
theorem SameFact.lines {fact : Dict} (hline : SameLine fact)
    (h : Unlined fact → SameFact engine fact) :
    (¬ Unlined fact ∧ ∃ s, printer.promptFact fact = some s ∧ engine.promptFact fact = some s) ∨
      (Unlined fact ∧ ∃ ref predicate validFrom marker,
        printer.promptFact fact = some (Sdk.factLine ref predicate
          ((fact.get "value").pyStr isPrintable) validFrom marker) ∧
        engine.promptFact fact = some (Sdk.factLine ref predicate
          (engine.jsonText (fact.value? "value")) validFrom marker)) := by
  by_cases hunlined : Unlined fact
  · have hfact := h hunlined
    obtain ⟨validFrom, hpython, hjs⟩ := hfact.validFrom hstr
    have hfalse : isTruthy (fact.get "line") = false := hline.truth.truthy.symm.trans hunlined
    have href : engine.text (nullish (fact.value? "ref") (some (.str "?"))) =
        some ((orJson (fact.get "ref") (.str "?")).pyStr isPrintable) :=
      hfact.ref.text isPrintable fun _ ↦ rfl
    have hpredicate : engine.text (fact.value? "predicate") =
        some ((fact.get "predicate").pyStr isPrintable) := hfact.predicate.text isPrintable
    refine .inr ⟨hunlined, (orJson (fact.get "ref") (.str "?")).pyStr isPrintable,
      (fact.get "predicate").pyStr isPrintable, printer.strJson validFrom,
      printer.promptMarker fact, ?_, ?_⟩
    · rw [Printer.promptFact, hfalse, if_neg (by decide), hpython, Option.map_some, hstr]
    · rw [JsEngine.promptFact, hunlined, if_neg (by decide), hjs, hfact.marker.text hstr, href,
        hpredicate]
      rfl
  · obtain ⟨s, htruthy, hpython, hvalue, hget⟩ := hline.printed hunlined
    refine .inl ⟨hunlined, s, ?_, ?_⟩
    · rw [Printer.promptFact, if_pos hpython, hget]
    · rw [JsEngine.promptFact, if_pos htruthy, hvalue]
      rfl

theorem SameEpisode.line {episode : Dict} (hline : SameLine episode)
    (h : Unlined episode → SameEpisode engine episode) :
    ∃ s, printer.promptEpisode episode = some s ∧ engine.promptEpisode episode = some s := by
  by_cases hunlined : Unlined episode
  · have hepisode := h hunlined
    have hfalse : isTruthy (episode.get "line") = false := hline.truth.truthy.symm.trans hunlined
    have href : engine.text (nullish (episode.value? "ref") (some (.str "?"))) =
        some ((orJson (episode.get "ref") (.str "?")).pyStr isPrintable) :=
      hepisode.ref.text isPrintable fun _ ↦ rfl
    have hkind : engine.text (episode.value? "kind") =
        some ((episode.get "kind").pyStr isPrintable) := hepisode.kind.text isPrintable
    have hexcerpt : engine.text (episode.value? "excerpt") =
        some ((episode.get "excerpt").pyStr isPrintable) := hepisode.excerpt.text isPrintable
    have hneighbor : truthy (episode.value? "context_neighbor") =
        isTruthy (episode.get "context_neighbor") := hepisode.neighbor.truthy
    refine ⟨_, by rw [Printer.promptEpisode, hfalse, if_neg (by decide)], ?_⟩
    rw [JsEngine.promptEpisode, hunlined, if_neg (by decide), hepisode.date.text hstr, href, hkind,
      hexcerpt, hneighbor, hstr]
    rfl
  · obtain ⟨s, htruthy, hpython, hvalue, hget⟩ := hline.printed hunlined
    refine ⟨s, ?_, ?_⟩
    · rw [Printer.promptEpisode, if_pos hpython, hget]
    · rw [JsEngine.promptEpisode, if_pos htruthy, hvalue]
      rfl

end Items

/-! ## Escaping -/

theorem escapeClosingTag_cons (c : Char) (cs : List Char) :
    ∃ rest, escapeClosingTag (c :: cs) = c :: rest := by
  rw [escapeClosingTag]
  split <;> exact ⟨_, rfl⟩

/-- Over a seam, two texts are escaped one by one. -/
theorem escapeClosingTag_append {a b : List Char} (h : Seam closingTag.toList a b) :
    escapeClosingTag (a ++ b) = escapeClosingTag a ++ escapeClosingTag b := by
  induction a with
  | nil => rfl
  | cons c cs ih =>
    have htail : escapeClosingTag (cs ++ b) = escapeClosingTag cs ++ escapeClosingTag b := by
      rcases eq_or_ne cs [] with rfl | hne
      · rfl
      · exact ih (h.of_cons hne)
    have hprefix : closingTag.toList.isPrefixOf (c :: (cs ++ b)) =
        closingTag.toList.isPrefixOf (c :: cs) := by
      rw [Bool.eq_iff_iff, List.isPrefixOf_iff_prefix, List.isPrefixOf_iff_prefix,
        ← List.cons_append, h.prefix_iff (List.cons_ne_nil c cs)]
    rw [List.cons_append, escapeClosingTag, escapeClosingTag, hprefix, htail]
    split <;> rfl

/-- Texts that part outside of a closing tag part after the escaping. -/
theorem part_sanitizeInjection {a b : String} (h : PartApart closingTag.toList a.toList b.toList) :
    Part (sanitizeInjection a).toList (sanitizeInjection b).toList := by
  obtain ⟨w, c, d, x, y, ha, hb, hne, hseam, hseam'⟩ := h
  obtain ⟨x', hx⟩ := escapeClosingTag_cons c x
  obtain ⟨y', hy⟩ := escapeClosingTag_cons d y
  rw [sanitizeInjection, sanitizeInjection, String.toList_ofList, String.toList_ofList, ha, hb,
    escapeClosingTag_append hseam, escapeClosingTag_append hseam', hx, hy]
  exact (Part.cons hne x' y').append_left _

theorem part_factLine {a b : String} (h : PartApart closingTag.toList a.toList b.toList)
    (ref predicate validFrom marker : String) :
    Part (Sdk.factLine ref predicate a validFrom marker).toList
      (Sdk.factLine ref predicate b validFrom marker).toList := by
  simp only [Sdk.factLine, String.toList_append]
  have hvalue := (part_sanitizeInjection h).append_left
    ("- [".toList ++ ref.toList ++ "] ".toList ++ (sanitizeInjection predicate).toList ++
      ": ".toList)
  exact (((hvalue.append _ _).append _ _).append _ _).append _ _

/-! ## Blocks -/

/-- Both languages print the same packet, but for the values of facts. -/
structure SamePacket (engine : JsEngine) (packet : PacketObject) : Prop where
  status : packet.status = none ∨ SameText engine packet.status
  contested : (packet.facts.any fun f ↦ truthy (f.value? "contested")) =
    packet.facts.any fun f ↦ isTruthy (f.get "contested")
  factLines : ∀ fact ∈ packet.facts, SameLine fact
  episodeLines : ∀ episode ∈ packet.episodes, SameLine episode
  facts : ∀ fact ∈ packet.facts, Unlined fact → SameFact engine fact
  episodes : ∀ episode ∈ packet.episodes, Unlined episode → SameEpisode engine episode
  warnings : ∀ warning ∈ packet.warnings, SameText engine (some warning)

/-- Two functions on a list: related results for every member are related lists, and the lists are
the same only where all results are. -/
theorem mapM_related {α β : Type} {f g : α → Option β} {R : β → β → Prop} {as : List α}
    (h : ∀ a ∈ as, ∃ b c, f a = some b ∧ g a = some c ∧ R b c) :
    ∃ bs cs, as.mapM f = some bs ∧ as.mapM g = some cs ∧ List.Forall₂ R bs cs ∧
      (bs = cs ↔ ∀ a ∈ as, f a = g a) := by
  induction as with
  | nil => exact ⟨[], [], rfl, rfl, .nil, by simp⟩
  | cons a as ih =>
    obtain ⟨hhead, htail⟩ := List.forall_mem_cons.mp h
    obtain ⟨b, c, hb, hc, hrel⟩ := hhead
    obtain ⟨bs, cs, hbs, hcs, hrels, hiff⟩ := ih htail
    refine ⟨b :: bs, c :: cs, ?_, ?_, .cons hrel hrels, ?_⟩
    · rw [List.mapM_cons, hb, hbs]
      rfl
    · rw [List.mapM_cons, hc, hcs]
      rfl
    · rw [List.cons.injEq, List.forall_mem_cons, hb, hc, hiff, Option.some.injEq]

/-- Two blocks that differ in the lines of facts only. -/
theorem blockLines_around {facts facts' : List String} (h : facts.length = facts'.length)
    (status : Option String) (anyContested : Bool) (episodes warnings : List String) :
    ∃ before behind,
      Sdk.blockLines status anyContested facts episodes warnings = before ++ (facts ++ behind) ∧
      Sdk.blockLines status anyContested facts' episodes warnings =
        before ++ (facts' ++ behind) := by
  have hnil : facts = [] ↔ facts' = [] := by
    rw [← List.length_eq_zero_iff, ← List.length_eq_zero_iff, h]
  refine ⟨"<haki_memory>" :: ((status.map Sdk.statusParagraph).toList ++
    (if facts = [] ∧ episodes = [] then [] else [Sdk.factsParagraph]) ++
    if anyContested then [Sdk.contestedParagraph] else []),
    (if episodes = [] then [] else Sdk.episodesParagraph :: episodes) ++
      (warnings.map Sdk.warningLine ++ [closingTag]), ?_, ?_⟩
  · simp only [Sdk.blockLines, List.append_assoc, List.cons_append]
  · simp only [Sdk.blockLines, List.append_assoc, List.cons_append, hnil]

/-- Texts that are equal or part, as strings. -/
def TextEqOrPart (a b : String) : Prop := EqOrPart a.toList b.toList

/-- Blocks whose lines of facts are equal or part are the same only where these lines are. -/
theorem intercalate_blockLines_inj {facts facts' : List String}
    (h : List.Forall₂ TextEqOrPart facts facts') (status : Option String) (anyContested : Bool)
    (episodes warnings : List String) :
    "\n".intercalate (Sdk.blockLines status anyContested facts episodes warnings) =
      "\n".intercalate (Sdk.blockLines status anyContested facts' episodes warnings) ↔
        facts = facts' := by
  refine ⟨fun heq ↦ ?_, fun heq ↦ heq ▸ rfl⟩
  by_contra hne
  obtain ⟨before, behind, hblock, hblock'⟩ :=
    blockLines_around h.length_eq status anyContested episodes warnings
  have hself (l : List String) : List.Forall₂ TextEqOrPart l l :=
    List.forall₂_same.mpr fun _ _ ↦ .inl rfl
  have hlines : List.Forall₂ TextEqOrPart (before ++ (facts ++ behind))
      (before ++ (facts' ++ behind)) :=
    List.rel_append (hself before) (List.rel_append h (hself behind))
  have htexts : List.Forall₂ EqOrPart ((before ++ (facts ++ behind)).map String.toList)
      ((before ++ (facts' ++ behind)).map String.toList) :=
    List.forall₂_map_left_iff.mpr (List.forall₂_map_right_iff.mpr hlines)
  have hne' : (before ++ (facts ++ behind)).map String.toList ≠
      (before ++ (facts' ++ behind)).map String.toList := fun hmap ↦
    hne (List.append_cancel_right (List.append_cancel_left
      (List.map_injective_iff.mpr (fun _ _ ↦ String.toList_injective) hmap)))
  have hpart : Part ("\n".toList.intercalate ((before ++ (facts ++ behind)).map String.toList))
      ("\n".toList.intercalate ((before ++ (facts' ++ behind)).map String.toList)) :=
    Part.intercalate htexts hne'
  rw [hblock, hblock'] at heq
  refine hpart.ne ?_
  rw [← String.toList_intercalate, ← String.toList_intercalate, heq]

theorem unquoted_closingTag : Unquoted closingTag.toList := by decide

/-- Of all objects, only the empty one is written alike. -/
theorem sameValue_obj {engine : JsEngine} (hengine : engine.Lawful) {isPrintable : Char → Bool}
    {es : List (String × PyJson)} :
    SameValue engine isPrintable (some (.obj es)) ↔ es = [] := by
  cases es with
  | nil =>
    rw [SameValue, JsEngine.jsonText, JsEngine.stringify]
    exact ⟨fun _ ↦ rfl, fun _ ↦ rfl⟩
  | cons e es =>
    refine ⟨fun hsame ↦ ?_, fun hnil ↦ absurd hnil (List.cons_ne_nil e es)⟩
    obtain ⟨w, c, d, x, y, hpython, hjs, hne, -⟩ :=
      partApart_object unquoted_closingTag isPrintable hengine e.1 e.2 es
    have hlists := congrArg String.toList hsame
    have hpart : Part (w ++ d :: y) (w ++ c :: x) := ⟨w, d, c, y, x, rfl, rfl, hne.symm⟩
    exact absurd (hjs.symm.trans (hlists.trans hpython)) hpart.ne

section Blocks

variable {engine : JsEngine} {printer : Printer} {isPrintable : Char → Bool}
  (hstr : printer.strJson = Json.pyStr isPrintable) (hengine : engine.Lawful)

include hstr hengine

/-- The lines of a fact are the same when its value is written in the same way, and part
otherwise. -/
theorem SameFact.line_iff {fact : Dict} (hline : SameLine fact)
    (h : Unlined fact → SameFact engine fact)
    (hvalue : Unlined fact → (∃ es, fact.value? "value" = some (.obj es)) ∨
      SameValue engine isPrintable (fact.value? "value")) :
    (∃ a b, printer.promptFact fact = some a ∧ engine.promptFact fact = some b ∧
      TextEqOrPart a b) ∧
    (printer.promptFact fact = engine.promptFact fact ↔
      (Unlined fact → SameValue engine isPrintable (fact.value? "value"))) := by
  rcases SameFact.lines hstr hline h with
    ⟨hlined, s, hpython, hjs⟩ | ⟨hunlined, ref, predicate, validFrom, marker, hpython, hjs⟩
  · refine ⟨⟨s, s, hpython, hjs, .inl rfl⟩, fun _ hunlined ↦ absurd hunlined hlined, fun _ ↦ ?_⟩
    rw [hpython, hjs]
  · rw [hpython, hjs]
    by_cases hsame : SameValue engine isPrintable (fact.value? "value")
    · have heq : (fact.get "value").pyStr isPrintable = engine.jsonText (fact.value? "value") :=
        hsame.symm
      rw [heq]
      exact ⟨⟨_, _, rfl, rfl, .inl rfl⟩, fun _ _ ↦ hsame, fun _ ↦ rfl⟩
    · obtain ⟨es, hes⟩ := (hvalue hunlined).resolve_right hsame
      have hget : fact.get "value" = .obj es := by rw [Dict.get, hes]; rfl
      cases es with
      | nil => exact absurd (hes ▸ (sameValue_obj hengine).mpr rfl) hsame
      | cons e es =>
        have hpart := part_factLine
          (partApart_object unquoted_closingTag isPrintable hengine e.1 e.2 es)
          ref predicate validFrom marker
        rw [hes] at hsame ⊢
        rw [hget]
        refine ⟨⟨_, _, rfl, rfl, .inr hpart⟩, fun heq ↦ ?_, fun hall ↦ absurd (hall hunlined) hsame⟩
        exact absurd (congrArg String.toList (Option.some.inj heq)) hpart.ne

omit hstr hengine in
theorem SamePacket.promptStatus {packet : PacketObject} (h : SamePacket engine packet) :
    JsEngine.promptStatus packet = some (packet.status.getD (.str "ok")) ∧
      ∀ isPrintable, engine.text (JsEngine.promptStatus packet) =
        some ((packet.status.getD (.str "ok")).pyStr isPrintable) := by
  rw [JsEngine.promptStatus]
  rcases h.status with hstatus | hsame
  · rw [hstatus]
    exact ⟨rfl, fun _ ↦ rfl⟩
  · have htext (isPrintable : Char → Bool) := hsame.text isPrintable
    generalize packet.status = status at hsame htext
    rcases status with _ | s
    · cases hsame
    · cases s with
      | str s => exact ⟨rfl, htext⟩
      | num n => exact ⟨rfl, htext⟩
      | _ => cases hsame

omit hengine in
/-- Around the lines of facts the blocks are the same. -/
theorem SamePacket.block {packet : PacketObject} (h : SamePacket engine packet) :
    ∃ status anyContested episodes warnings,
      (∀ facts, packet.facts.mapM printer.promptFact = some facts →
        printer.promptLines packet =
          some (Sdk.blockLines status anyContested facts episodes warnings)) ∧
      ∀ facts, packet.facts.mapM engine.promptFact = some facts →
        engine.promptLines packet =
          some (Sdk.blockLines status anyContested facts episodes warnings) := by
  obtain ⟨episodes, episodes', hpython, hjs, hrel, -⟩ :=
    mapM_related (R := Eq) fun episode hmem ↦ by
      obtain ⟨s, hpython, hjs⟩ :=
        SameEpisode.line hstr (h.episodeLines episode hmem) (h.episodes episode hmem)
      exact ⟨s, s, hpython, hjs, rfl⟩
  obtain rfl : episodes = episodes' := by rwa [List.forall₂_eq_eq_eq] at hrel
  have hwarnings : packet.warnings.mapM engine.valueText =
      some (packet.warnings.map printer.strJson) := by
    have htext (warning : PyJson) (hmem : warning ∈ packet.warnings) :
        engine.valueText (id warning) = some (printer.strJson warning) := by
      rw [hstr]
      exact (h.warnings warning hmem).text isPrintable
    simpa using mapM_map htext
  refine ⟨if packet.status.getD (.str "ok") = .str "ok" then none
    else some (printer.strJson (packet.status.getD (.str "ok"))),
    packet.facts.any fun f ↦ isTruthy (f.get "contested"), episodes,
    packet.warnings.map printer.strJson, fun facts hfacts ↦ ?_, fun facts hfacts ↦ ?_⟩
  · rw [Printer.promptLines, hfacts, hpython]
    rfl
  · obtain ⟨hstatus, htext⟩ := h.promptStatus
    rw [JsEngine.promptLines, hfacts, hjs, hwarnings, h.contested, htext isPrintable, hstatus, hstr]
    simp only [Option.some.injEq]
    split <;> rfl

/-- The blocks of a packet are the same when both languages write the values in the same way, and
only then. -/
theorem buildPromptContext_iff {packet : PacketObject} (h : SamePacket engine packet)
    (hvalues : ∀ fact ∈ packet.facts, Unlined fact →
      (∃ es, fact.value? "value" = some (.obj es)) ∨
        SameValue engine isPrintable (fact.value? "value")) :
    engine.buildPromptContext packet = printer.buildPromptContext packet ↔
      ∀ fact ∈ packet.facts, Unlined fact →
        SameValue engine isPrintable (fact.value? "value") := by
  have hline (fact : Dict) (hmem : fact ∈ packet.facts) :=
    SameFact.line_iff hstr hengine (h.factLines fact hmem) (h.facts fact hmem) (hvalues fact hmem)
  obtain ⟨facts, facts', hpython, hjs, hrel, hiff⟩ :=
    mapM_related (R := TextEqOrPart) fun fact hmem ↦ (hline fact hmem).1
  have hfacts : facts = facts' ↔ ∀ fact ∈ packet.facts, Unlined fact →
      SameValue engine isPrintable (fact.value? "value") :=
    hiff.trans (forall₂_congr fun fact hmem ↦ (hline fact hmem).2)
  obtain ⟨status, anyContested, episodes, warnings, hprinted, hprinted'⟩ := h.block hstr
  have hok : JsEngine.promptStatus packet = some (.str "ok") ↔
      packet.status.getD (.str "ok") = .str "ok" := by
    rw [h.promptStatus.1, Option.some.injEq]
  simp only [JsEngine.buildPromptContext, Printer.buildPromptContext, hok]
  split
  next hempty =>
    refine ⟨fun _ fact hmem ↦ ?_, fun _ ↦ rfl⟩
    rw [hempty.1] at hmem
    cases hmem
  next =>
    rw [hprinted facts hpython, hprinted' facts' hjs, Option.map_some, Option.map_some,
      Option.some.injEq, eq_comm, intercalate_blockLines_inj hrel, hfacts]

end Blocks

/-- **The SDKs print the same block when the values of facts are written in the same way.**  The
value of a fact without a line is written by `str` in one SDK and by `JSON.stringify` in the other;
of the objects that stand there in a packet of the server, only the empty one is written alike. -/
theorem sdk_parity_iff {engine : JsEngine} {printer : Printer} {isPrintable : Char → Bool}
    (hstr : printer.strJson = Json.pyStr isPrintable) (hengine : engine.Lawful)
    (packet : PacketObject) (h : SamePacket engine packet) :
    ((∀ fact ∈ packet.facts, Unlined fact →
        SameValue engine isPrintable (fact.value? "value")) →
      engine.buildPromptContext packet = printer.buildPromptContext packet) ∧
    ((∀ fact ∈ packet.facts, Unlined fact → ∃ es, fact.value? "value" = some (.obj es)) →
      (engine.buildPromptContext packet = printer.buildPromptContext packet ↔
        ∀ fact ∈ packet.facts, Unlined fact → fact.value? "value" = some (.obj []))) := by
  constructor
  · intro hsame
    exact (buildPromptContext_iff hstr hengine h fun fact hmem hunlined ↦
      .inr (hsame fact hmem hunlined)).mpr hsame
  · intro hobjects
    rw [buildPromptContext_iff hstr hengine h fun fact hmem hunlined ↦
      .inl (hobjects fact hmem hunlined)]
    refine forall₂_congr fun fact hmem ↦ forall_congr' fun hunlined ↦ ?_
    obtain ⟨es, hes⟩ := hobjects fact hmem hunlined
    rw [hes, sameValue_obj hengine, Option.some.injEq, Json.obj.injEq]

/-! ## Samples -/

/-- An engine that writes integers as Python does. -/
def Sample.engine : JsEngine where
  numberText n := n.dumps
  numberJson
    | .int n => toString n
    | .float _ => "null"

theorem toList_null : "null".toList = ['n', 'u', 'l', 'l'] := by decide

theorem Sample.engine_lawful : Sample.engine.Lawful where
  numberJson n := by
    cases n with
    | int n =>
      obtain ⟨c, rest, htext⟩ := List.exists_cons_of_ne_nil (toList_repr_ne_nil n)
      have hhead : c.isDigit ∨ c = '-' := mem_toList_repr (htext ▸ List.mem_cons_self)
      exact ⟨c, rest, htext, hhead.elim .inl fun hminus ↦ .inr (.inl hminus)⟩
    | float => exact ⟨'n', _, toList_null, .inr (.inr rfl)⟩

/-- A fact without a line, under `value`. -/
def Sample.unlined (value : PyJson) : Dict :=
  ((Table.empty.insert ("ref", .str "F1")).insert ("predicate", .str "home")).insert
    ("value", value)

/-- A degraded packet of one fact without a line. -/
def Sample.unlinedPacket (value : PyJson) : PacketObject where
  facts := [Sample.unlined value]
  episodes := []
  warnings := [.str "rerank timed out"]
  status := some (.str "degraded")

theorem Sample.unlinedPacket_same (value : PyJson) :
    SamePacket Sample.engine (Sample.unlinedPacket value) where
  status := .inr trivial
  contested := rfl
  factLines := List.forall_mem_singleton.mpr ⟨Nullish.sameTruth (.inl rfl), by rintro ⟨⟩⟩
  episodeLines := List.forall_mem_nil _
  facts := List.forall_mem_singleton.mpr fun _ ↦
    { date := ⟨.inl (.inl rfl), fun _ ↦ .inl (.inl rfl), Nullish.samePart (.inl rfl)⟩
      period := ⟨Nullish.sameTruth (.inl rfl), by rintro ⟨⟩, by rintro ⟨⟩, by rintro ⟨⟩⟩
      marker := ⟨fun _ ↦ .inl (.inl rfl), Nullish.samePart (.inl rfl), Nullish.samePart (.inl rfl),
        Nullish.sameTruth (.inl rfl)⟩
      ref := .inr ⟨rfl, trivial⟩
      predicate := trivial }
  episodes := List.forall_mem_nil _
  warnings := List.forall_mem_singleton.mpr trivial

theorem Reader.python_strJson :
    Reader.python.strJson = Json.pyStr fun _ ↦ true := rfl

/-- An object with an entry is not written alike. -/
theorem sdk_parity_sample :
    Sample.engine.buildPromptContext (Sample.unlinedPacket (.obj [])) =
        Reader.python.buildPromptContext (Sample.unlinedPacket (.obj [])) ∧
      Sample.engine.buildPromptContext (Sample.unlinedPacket (.obj [("n", .num (.int 1))])) ≠
        Reader.python.buildPromptContext (Sample.unlinedPacket (.obj [("n", .num (.int 1))])) := by
  constructor
  · exact ((sdk_parity_iff Reader.python_strJson Sample.engine_lawful _
      (Sample.unlinedPacket_same _)).2 (List.forall_mem_singleton.mpr fun _ ↦ ⟨_, rfl⟩)).mpr
      (List.forall_mem_singleton.mpr fun _ ↦ rfl)
  · intro heq
    have hall := ((sdk_parity_iff Reader.python_strJson Sample.engine_lawful _
      (Sample.unlinedPacket_same _)).2 (List.forall_mem_singleton.mpr fun _ ↦ ⟨_, rfl⟩)).mp heq
    have hempty := hall _ List.mem_cons_self rfl
    cases hempty

/-- The two blocks differ in how the value is quoted. -/
theorem sdk_parity_fails :
    Sample.engine.buildPromptContext (Sample.unlinedPacket (.obj [("value", .str "Lyon")])) ≠
      Reader.python.buildPromptContext (Sample.unlinedPacket (.obj [("value", .str "Lyon")])) := by
  decide +kernel

end Haki
