import Haki.Context.Packed
import Haki.Sample
import Haki.Sdk.Runtime

/-!
# The charged line is the printed line

The server renders the line of an item to charge it, the SDK prints that line,
and renders the item itself when a packet comes without lines.  The two
renderers agree on everything the server can put into a packet.
-/

namespace Haki

open Data

section

variable {printer : Printer}

/-- `str` of a string is the string. -/
def Printer.StrOfStr (printer : Printer) : Prop := ∀ s, printer.strJson (.str s) = s

/-! ## Fallbacks -/

/-- `or` reads a text that may be missing in the same way before and after it becomes JSON. -/
theorem orJson_textOrNull (a : Option String) (b : String) :
    orJson (textOrNull a) (.str b) = .str (orText a b) := by
  cases a with
  | none => rfl
  | some a =>
    by_cases ha : a = ""
    · simp [orJson, textOrNull, orText, isTruthy, ha]
    · simp [orJson, textOrNull, orText, isTruthy, ha]

/-- The two ways to append an offset that may be missing. -/
theorem dated_textOrNull (h : printer.StrOfStr) (date : String) (relative : Option String) :
    (if isTruthy (textOrNull relative) then
      Sdk.dated date (printer.strJson (textOrNull relative)) else date) =
      withRelative date relative := by
  cases relative with
  | none => rfl
  | some relative =>
    by_cases hr : relative = ""
    · simp [textOrNull, isTruthy, withRelative, hr]
    · simp [textOrNull, isTruthy, withRelative, hr, Sdk.dated, h relative]

/-! ## Facts -/

variable (item : PacketFact)

theorem promptDate_object (h : printer.StrOfStr) :
    printer.promptDate (item.object printer) = .str (withRelative
      (orText item.validFromShort (orText item.validFrom "unknown date"))
      item.validFromRelative) := by
  rw [← dated_textOrNull h]
  simp only [Printer.promptDate, PacketFact.object, get_mk, entryGet_cons, String.reduceEq, if_true,
    if_false, orJson_textOrNull, h _]
  split <;> rfl

theorem promptValidFrom_object (h : printer.StrOfStr) :
    printer.promptValidFrom (item.object printer) = some (.str (factValidFrom item)) := by
  have hrange : (item.object printer).get "temporal_range" =
      (item.temporalRange.map TemporalRange.object).getD .null := by
    simp [PacketFact.object]
  rw [Printer.promptValidFrom, promptDate_object item h, hrange, factValidFrom]
  cases item.temporalRange with
  | none => rw [Option.map_none, Option.getD_none, if_neg (by simp [isTruthy]), String.append_empty]
  | some range =>
    have hstart : entryGet [("start", .str range.start), ("end", .str range.end)] "start" =
        .str range.start := rfl
    have hend : entryGet [("start", .str range.start), ("end", .str range.end)] "end" =
        .str range.end := rfl
    have htruthy : isTruthy range.object = true := rfl
    rw [Option.map_some, Option.getD_some, if_pos htruthy, TemporalRange.object]
    dsimp only
    rw [hstart, hend, h, h]
    rfl

theorem promptMarker_object (h : printer.StrOfStr) :
    printer.promptMarker (item.object printer) = printer.factMarker item := by
  have hlast : printer.strJson (orJson ((item.object printer).get "last_confirmed")
      (.str "an unknown date")) = orText (some item.lastConfirmed) "an unknown date" := by
    have hget : (item.object printer).get "last_confirmed" =
        textOrNull (some item.lastConfirmed) := by
      simp [PacketFact.object, textOrNull]
    rw [hget, orJson_textOrNull, h]
  have hfreshness : (item.object printer).get "freshness" = .str item.freshness.text := by
    simp [PacketFact.object]
  have hattributed : (item.object printer).get "attributed_to" =
      item.attributedTo.getD .null := by
    simp [PacketFact.object]
  have hcontested : (item.object printer).get "contested" = .bool item.conflictId.isSome := by
    simp [PacketFact.object]
  have hconflict : (item.object printer).get "conflict_id" =
      textOrNull (item.conflictId.map printer.strConflictId) := by
    simp [PacketFact.object]
  have hreclassified : (item.object printer).get "auto_reclassified" =
      .bool item.autoReclassified := by
    simp [PacketFact.object]
  rw [Printer.promptMarker, hlast, hfreshness, hattributed, hcontested, hconflict, hreclassified,
    Printer.factMarker]
  congr 1
  · congr 1
    · congr 1
      · rw [freshnessMarker]
        cases item.freshness with
        | current => simp [Freshness.text]
        | unconfirmed => rfl
        | stale => rfl
      · rw [Printer.attributionMarker]
        cases item.attributedTo with
        | none => rfl
        | some speaker => rfl
    · rw [Printer.contestedMarker]
      cases item.conflictId with
      | none => rfl
      | some id =>
        simp only [Option.isSome_some, Option.map_some, textOrNull, h (printer.strConflictId id)]
        rfl

/-- The fallback of the SDK prints the server's line of a fact. -/
theorem promptFact_object (h : printer.StrOfStr) :
    printer.promptFact (item.object printer) = some (printer.renderFact item) := by
  have hline : (item.object printer).get "line" = .null := by
    simp [PacketFact.object]
  have href : (item.object printer).get "ref" = textOrNull (some item.ref) := by
    simp [PacketFact.object, textOrNull]
  have hpredicate : (item.object printer).get "predicate" = .str item.predicate := by
    simp [PacketFact.object]
  have hvalue : (item.object printer).get "value" = .obj item.value.rows := by
    simp [PacketFact.object]
  rw [Printer.promptFact, hline, if_neg (by simp [isTruthy]), promptValidFrom_object item h, href,
    hpredicate, hvalue, promptMarker_object item h, orJson_textOrNull, Option.map_some, h, h, h]
  rfl

/-! ## Episodes -/

/-- The fallback of the SDK prints the server's line of an episode. -/
theorem promptEpisode_object (h : printer.StrOfStr) (item : PacketEpisode) :
    printer.promptEpisode item.object = some (renderEpisode item) := by
  have hline : item.object.get "line" = .null := by
    simp [PacketEpisode.object]
  have href : item.object.get "ref" = textOrNull (some item.ref) := by
    simp [PacketEpisode.object, textOrNull]
  have hkind : item.object.get "kind" = .str item.kind := by
    simp [PacketEpisode.object]
  have hexcerpt : item.object.get "excerpt" = .str item.excerpt := by
    simp [PacketEpisode.object]
  have hshort : item.object.get "occurred_at_short" = textOrNull item.occurredAtShort := by
    simp [PacketEpisode.object]
  have hdate : item.object.get "occurred_at" = textOrNull (some item.occurredAt) := by
    simp [PacketEpisode.object, textOrNull]
  have hrelative : item.object.get "occurred_at_relative" =
      textOrNull item.occurredAtRelative := by
    simp [PacketEpisode.object]
  have hneighbor : item.object.get "context_neighbor" = .bool item.contextNeighbor := by
    simp [PacketEpisode.object]
  rw [Printer.promptEpisode, hline, if_neg (by simp [isTruthy]), href, hkind, hexcerpt, hshort,
    hdate, hrelative, hneighbor]
  simp only [orJson_textOrNull, h _, dated_textOrNull h]
  rfl

/-! ## Blocks -/

theorem renderFact_ne_empty (item : PacketFact) : printer.renderFact item ≠ "" := by
  rw [Printer.renderFact]
  intro h
  have hlist := congrArg String.toList h
  simp at hlist

theorem renderEpisode_ne_empty (item : PacketEpisode) : renderEpisode item ≠ "" := by
  rw [renderEpisode]
  intro h
  have hlist := congrArg String.toList h
  simp at hlist

/-- With a line, an item is printed as this line. -/
theorem promptFact_set {line : String} (hline : line ≠ "") (fact : Dict) :
    printer.promptFact (fact.set "line" (.str line)) = some line := by
  rw [Printer.promptFact, get_set_self, if_pos (by simp [isTruthy, hline])]

theorem promptEpisode_set {line : String} (hline : line ≠ "") (episode : Dict) :
    printer.promptEpisode (episode.set "line" (.str line)) = some line := by
  rw [Printer.promptEpisode, get_set_self, if_pos (by simp [isTruthy, hline])]

theorem mapM_map {α β γ : Type} {f : α → β} {g : β → Option γ} {h : α → γ} {as : List α}
    (heq : ∀ a ∈ as, g (f a) = some (h a)) : (as.map f).mapM g = some (as.map h) := by
  induction as with
  | nil => rfl
  | cons a as ih =>
    rw [List.map_cons, List.mapM_cons, heq a List.mem_cons_self,
      ih fun b hb ↦ heq b (List.mem_cons_of_mem _ hb)]
    rfl

variable {packet : ContextPacket}

/-- Every item of a packet has a line. -/
structure ContextPacket.Lined (packet : ContextPacket) : Prop where
  facts : ∀ printed ∈ packet.facts, printed.line ≠ ""
  episodes : ∀ printed ∈ packet.episodes, printed.line ≠ ""

/-- A packet whose items have lines is printed as these lines. -/
theorem promptLines_object (h : packet.Lined) :
    printer.promptLines (packet.object printer) = some (Sdk.blockLines
      (if packet.status = .ok then none else some (printer.strJson (.str packet.status.text)))
      (packet.facts.any fun printed ↦ printed.item.conflictId.isSome)
      (packet.facts.map Printed.line) (packet.episodes.map Printed.line)
      (packet.warnings.map fun warning ↦ printer.strJson (.str warning))) := by
  have hcontested (printed : Printed PacketFact) :
      isTruthy (((printed.item.object printer).set "line" (.str printed.line)).get "contested") =
        printed.item.conflictId.isSome := by
    rw [get_set_of_ne _ (by decide)]
    simp [PacketFact.object, isTruthy]
  have hstatus : (Json.str packet.status.text : PyJson) = .str "ok" ↔ packet.status = .ok := by
    cases packet.status <;> simp [ContextStatus.text]
  rw [Printer.promptLines, ContextPacket.object]
  dsimp only
  rw [mapM_map (h := Printed.line) fun printed hmem ↦ promptFact_set (h.facts printed hmem) _,
    mapM_map (h := Printed.line) fun printed hmem ↦ promptEpisode_set (h.episodes printed hmem) _]
  simp only [List.any_map, List.map_map, Function.comp_def, hcontested, Option.getD_some, hstatus]
  rfl

/-- The block does not depend on whether the items of a packet come with their lines. -/
theorem buildPromptContext_objectWithoutLines (h : printer.StrOfStr) (hlined : packet.Lined)
    (hfacts : ∀ printed ∈ packet.facts, printed.line = printer.renderFact printed.item)
    (hepisodes : ∀ printed ∈ packet.episodes, printed.line = renderEpisode printed.item) :
    printer.buildPromptContext (packet.objectWithoutLines printer) =
      printer.buildPromptContext (packet.object printer) := by
  have hcontested (printed : Printed PacketFact) :
      ((printed.item.object printer).set "line" (.str printed.line)).get "contested" =
        (printed.item.object printer).get "contested" := get_set_of_ne _ (by decide)
  have hlines : printer.promptLines (packet.objectWithoutLines printer) =
      printer.promptLines (packet.object printer) := by
    rw [Printer.promptLines, Printer.promptLines, ContextPacket.objectWithoutLines,
      ContextPacket.object]
    dsimp only
    rw [mapM_map (h := Printed.line) fun printed hmem ↦
        (promptFact_object printed.item h).trans (congrArg some (hfacts printed hmem).symm),
      mapM_map (h := Printed.line) fun printed hmem ↦
        (promptEpisode_object h printed.item).trans (congrArg some (hepisodes printed hmem).symm),
      mapM_map (h := Printed.line) fun printed hmem ↦ promptFact_set (hlined.facts printed hmem) _,
      mapM_map (h := Printed.line) fun printed hmem ↦
        promptEpisode_set (hlined.episodes printed hmem) _]
    simp only [List.any_map, Function.comp_def, hcontested]
  rw [Printer.buildPromptContext, Printer.buildPromptContext, hlines]
  simp only [ContextPacket.objectWithoutLines, ContextPacket.object, List.map_eq_nil_iff]

end

/-- The items of a built packet have the lines they are rendered as. -/
theorem packetOf_lined (reader : Reader) (store : Store) (request : ContextRequest) :
    (packetOf reader store request (packedContext reader store request)).Lined := by
  have hbalanced := packedContext_balanced reader store request
  constructor
  · intro printed hmem
    rw [hbalanced.factLines printed hmem]
    exact renderFact_ne_empty printed.item
  · intro printed hmem
    rw [hbalanced.episodeLines printed hmem]
    exact renderEpisode_ne_empty printed.item

/-- **The charged line is the printed line.**  What the SDK prints for an item without `line` is the
line the server renders and charges; so the block of a packet is the same with and without lines,
and its items cost what the packet says they cost. -/
theorem charged_is_printed (reader : Reader) (hstr : reader.StrOfStr) :
    (∀ item : PacketFact,
      reader.promptFact (item.object reader.toPrinter) = some (reader.renderFact item)) ∧
    (∀ item : PacketEpisode, reader.promptEpisode item.object = some (renderEpisode item)) ∧
    ∀ store request built, buildContext reader store request = .ok built →
      (∀ printed ∈ built.packet.facts,
        reader.promptFact (printed.item.object reader.toPrinter) = some printed.line) ∧
      (∀ printed ∈ built.packet.episodes,
        reader.promptEpisode printed.item.object = some printed.line) ∧
      built.tokenCount = printedCost built.packet.facts + printedCost built.packet.episodes ∧
      reader.buildPromptContext (built.packet.objectWithoutLines reader.toPrinter) =
        reader.buildPromptContext (built.packet.object reader.toPrinter) := by
  refine ⟨fun item ↦ promptFact_object item hstr, fun item ↦ promptEpisode_object hstr item, ?_⟩
  intro store request built h
  obtain rfl := Except.ok.inj
    ((buildContext_eq reader store request (buildContext_eq_ok h).1).symm.trans h)
  have hbalanced := packedContext_balanced reader store request
  refine ⟨fun printed hmem ↦ ?_, fun printed hmem ↦ ?_, hbalanced.tokens, ?_⟩
  · rw [promptFact_object printed.item hstr, hbalanced.factLines printed hmem]
    rfl
  · rw [promptEpisode_object hstr printed.item, hbalanced.episodeLines printed hmem]
  · exact buildPromptContext_objectWithoutLines hstr (packetOf_lined reader store request)
      hbalanced.factLines hbalanced.episodeLines

theorem Reader.python_strOfStr : Reader.python.StrOfStr := fun _ ↦ rfl

/-- What Ann says about where the subject lives. -/
def Sample.hearsay : PacketFact where
  id := ⟨1, 0⟩
  ref := "F1"
  predicate := "home"
  value := entry "city" "Lyon"
  validFrom := none
  validFromShort := none
  validFromRelative := some "the day of the question"
  validTo := none
  qualifiers := entry "attributed_to" "Ann"
  temporalRange := some ⟨"2025", "2026"⟩
  observedAt := none
  observedAtRelative := none
  autoReclassified := false
  sourceEventIds := [1]
  factKind := .attribute
  volatility := .stable
  lastConfirmed := "2026-01-01T00:00:00"
  freshness := .current
  originTrust := .thirdParty
  attributedTo := some (.str "Ann")
  conflictId := none

/-- Under Python's `str`. -/
theorem charged_is_printed_python :
    Reader.python.promptFact (Sample.hearsay.object Reader.python.toPrinter) =
        some (Reader.python.renderFact Sample.hearsay) ∧
      Reader.python.renderFact Sample.hearsay =
        "- [F1] home: \x7b'city': 'Lyon'\x7d (valid from unknown date — the day of the question; " ++
        "described event dated 2025 to 2026) [reported by a third party (Ann) — " ++
        "not a statement by the subject]" :=
  ⟨(charged_is_printed Reader.python Reader.python_strOfStr).1 Sample.hearsay, by decide +kernel⟩

end Haki
