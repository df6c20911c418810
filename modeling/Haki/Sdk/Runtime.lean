import Haki.Context.Assembler

/-!
# The Python SDK

`build_prompt_context`, which turns a packet into the block of the prompt, and
`seen`, which turns packets into `exclude_ids` (`haki.runtime`).  The SDK reads
a packet as JSON: a key may be missing, and any value may stand under it.

`none` is an exception.  Texts that the renderer writes around the data are
functions of the data they enclose; the TypeScript SDK has the same ones.
-/

namespace Haki

open Data

/-! ## Packets as JSON -/

/-- A packet, as an SDK receives it. -/
structure PacketObject where
  facts : List Dict
  episodes : List Dict
  warnings : List PyJson
  /-- `none` when the key is missing. -/
  status : Option PyJson

/-! ## Texts -/

namespace Sdk

/-- The paragraph about the status of a packet. -/
def statusParagraph (status : String) : String :=
  "Memory status: " ++ status ++ ". Do not treat this as \"no memory\" — " ++
  "the retrieval itself was degraded or failed, memory may exist " ++
  "but could not be fully read."

/-- The paragraph before the facts. -/
def factsParagraph : String :=
  "Verified long-term memory facts about this subject. You MUST apply them " ++
  "whenever they are relevant to the request: treat them as instructions " ++
  "about HOW to respond (language of your answer, format, constraints, " ++
  "decisions already made), not as background trivia. If a fact states a " ++
  "language preference, write your entire response in that language. " ++
  "Cite an item by the reference in square brackets at the start of " ++
  "its line (F3, E7) when you rely on it. Facts already reflect the " ++
  "CURRENT, resolved truth — an outdated value is removed the moment a " ++
  "newer one is confirmed, so you never need to compare dates between " ++
  "facts yourself; do not second-guess a fact's value. EXCEPTION: a fact " ++
  "marked CONTESTED below is an unresolved disagreement — for those, and " ++
  "only those, compare 'valid from' dates yourself and treat the most " ++
  "recent one as current. Relevance check first: these items were picked " ++
  "by similarity, so they can look topical while answering a different " ++
  "question. Before using any of them, check that at least one is even " ++
  "about what is asked — the same attribute, event, or decision. " ++
  "Competing candidates are fine (that is what the rest of these " ++
  "instructions resolve); inventing from nothing is not. If nothing " ++
  "below is even about it, say the memory does not contain it instead " ++
  "of promoting the closest-looking item to an answer."

/-- The paragraph about contested facts. -/
def contestedParagraph : String :=
  "One or more facts above are marked CONTESTED — an unresolved " ++
  "disagreement between two dated values for the same real-world " ++
  "fact, both shown so you are not left with zero information " ++
  "instead of a wrong one. Resolve each contested group yourself: " ++
  "1) find every CONTESTED fact that shares the same conflict id; " ++
  "2) check whether the question has an EXPLICIT past-state " ++
  "marker — 'before I changed/updated it', 'previously', 'used " ++
  "to', 'originally', 'when I first started', 'in the first " ++
  "[period]'. Ordinary past-tense phrasing alone ('what WAS X', " ++
  "'how many did I have') is NOT this signal and still means the " ++
  "CURRENT value — when in doubt, treat it as a CURRENT-value " ++
  "question; 3) for a CURRENT-value question (the default), " ++
  "treat ONLY the value with the LATEST date as current and " ++
  "discard the earlier one entirely — do not mention it, do not " ++
  "average it in, do not present both as still true; 4) only " ++
  "when an explicit marker is present, answer with the EARLIER " ++
  "dated value instead — defaulting to 'most recent' there " ++
  "answers a different question than the one asked."

/-- The paragraph before the episodes. -/
def episodesParagraph : String :=
  "Dated events from the source history (episodic memory): raw excerpts " ++
  "kept for citation and narrative detail. They can mention values that " ++
  "were later updated — if anything here conflicts with a fact above, " ++
  "the FACT is the current, correct answer; never prefer an older " ++
  "mention from here over it. If two dated items disagree and no fact " ++
  "above covers it, use the one with the most recent date — UNLESS the " ++
  "question explicitly asks about a past/previous state, in which case " ++
  "use the one matching that earlier point in time instead."

/-- A date with its offset. -/
def dated (date relative : String) : String := date ++ " — " ++ relative

/-- The period a fact is about. -/
def period (start stop : String) : String := "; described event dated " ++ start ++ " to " ++ stop

/-- The marker of an unconfirmed fact. -/
def unconfirmedSince (last : String) : String :=
  " — UNCONFIRMED since " ++ last ++ ": past its freshness horizon, " ++
  "re-confirm with the subject before relying on it"

/-- The marker of a stale fact. -/
def staleSince (last : String) : String :=
  " — STALE since " ++ last ++ ": a fast-changing value past its " ++
  "freshness horizon, not necessarily wrong but not " ++
  "guaranteed current either — treat it as the best available " ++
  "answer, not a certainty, and prefer to re-confirm with the " ++
  "subject before relying on it for anything consequential"

/-- The marker of what a third party said. -/
def reportedBy (speaker : String) : String :=
  " [reported by a third party (" ++ speaker ++ ") — " ++
  "not a statement by the subject]"

/-- The marker of a contested fact. -/
def contestedIn (conflict : String) : String :=
  " — CONTESTED (conflict " ++
  conflict ++ "): an unresolved conflicting value for " ++
  "this same fact is also shown below/above with the same conflict " ++
  "id; use the one with the most recent 'valid from' date as current, " ++
  "do not present both as equally true"

/-- The marker of a reclassified fact. -/
def autoReclassified : String :=
  " [AUTO-RECLASSIFIED: the system automatically decided this is " ++
  "one occurrence among several for this subject, based on 3+ " ++
  "differing values arriving for what looked like a single " ++
  "attribute — if these look like updates to ONE attribute over " ++
  "time (e.g. successive employers) rather than genuinely " ++
  "distinct occurrences (e.g. separate volunteering events), " ++
  "flag this to the subject instead of treating all values as " ++
  "equally current]"

/-- The marker of an episode that was not matched itself. -/
def contextNeighbor : String :=
  " [surrounding context — not independently matched to the " ++
  "query, included for the conversational moment around a " ++
  "result above]"

/-- The line of a fact. -/
def factLine (ref predicate value validFrom marker : String) : String :=
  "- [" ++ ref ++ "] " ++ sanitizeInjection predicate ++ ": " ++ sanitizeInjection value ++
    " (valid from " ++ validFrom ++ ")" ++ marker

/-- The line of an episode. -/
def episodeLine (ref occurred kind excerpt marker : String) : String :=
  "- [" ++ ref ++ "] [" ++ occurred ++ "] " ++ sanitizeInjection kind ++ ": " ++
    sanitizeInjection excerpt ++ marker

/-- The line of a warning. -/
def warningLine (warning : String) : String := "! " ++ warning

/-- The lines of a block around the printed items. -/
def blockLines (status : Option String) (anyContested : Bool) (facts episodes warnings : List String) :
    List String :=
  "<haki_memory>" :: ((status.map statusParagraph).toList ++
    (if facts = [] ∧ episodes = [] then [] else [factsParagraph]) ++
    (if anyContested then [contestedParagraph] else []) ++ facts ++
    (if episodes = [] then [] else episodesParagraph :: episodes) ++
    warnings.map warningLine ++ [closingTag])

end Sdk

/-! ## `build_prompt_context` -/

/-- `+=` of a text. -/
def addText : PyJson → String → Option PyJson
  | .str s, text => some (.str (s ++ text))
  | .arr items, text => some (.arr (items ++ text.toList.map fun c ↦ .str (String.singleton c)))
  | _, _ => none

namespace Printer

variable (printer : Printer)

/-- The date of a fact, with its offset. -/
def promptDate (fact : Dict) : PyJson :=
  let date := orJson (fact.get "valid_from_short")
    (orJson (fact.get "valid_from") (.str "unknown date"))
  let relative := fact.get "valid_from_relative"
  if isTruthy relative then .str (Sdk.dated (printer.strJson date) (printer.strJson relative))
  else date

/-- `valid_from`: the date, and the period when there is one. -/
def promptValidFrom (fact : Dict) : Option PyJson :=
  let range := fact.get "temporal_range"
  if isTruthy range then
    match range with
    | .obj entries =>
      addText (printer.promptDate fact) (Sdk.period (printer.strJson (entryGet entries "start"))
        (printer.strJson (entryGet entries "end")))
    | _ => none
  else some (printer.promptDate fact)

/-- `marker`. -/
def promptMarker (fact : Dict) : String :=
  let last := printer.strJson (orJson (fact.get "last_confirmed") (.str "an unknown date"))
  (if fact.get "freshness" = .str "unconfirmed" then Sdk.unconfirmedSince last
    else if fact.get "freshness" = .str "stale" then Sdk.staleSince last else "") ++
  (if isTruthy (fact.get "attributed_to") then
    Sdk.reportedBy (printer.strJson (fact.get "attributed_to")) else "") ++
  (if isTruthy (fact.get "contested") then
    Sdk.contestedIn (printer.strJson (fact.get "conflict_id")) else "") ++
  (if isTruthy (fact.get "auto_reclassified") then Sdk.autoReclassified else "")

/-- The line of a fact: the server's, or the fallback for a packet without it. -/
def promptFact (fact : Dict) : Option String :=
  if isTruthy (fact.get "line") then
    match fact.get "line" with
    | .str line => some line
    | _ => none
  else
    (printer.promptValidFrom fact).map fun validFrom ↦
      Sdk.factLine (printer.strJson (orJson (fact.get "ref") (.str "?")))
        (printer.strJson (fact.get "predicate")) (printer.strJson (fact.get "value"))
        (printer.strJson validFrom) (printer.promptMarker fact)

/-- The line of an episode, likewise. -/
def promptEpisode (episode : Dict) : Option String :=
  if isTruthy (episode.get "line") then
    match episode.get "line" with
    | .str line => some line
    | _ => none
  else
    let date := printer.strJson (orJson (episode.get "occurred_at_short")
      (orJson (episode.get "occurred_at") (.str "unknown date")))
    let relative := episode.get "occurred_at_relative"
    let occurred :=
      if isTruthy relative then Sdk.dated date (printer.strJson relative) else date
    some (Sdk.episodeLine (printer.strJson (orJson (episode.get "ref") (.str "?"))) occurred
      (printer.strJson (episode.get "kind")) (printer.strJson (episode.get "excerpt"))
      (if isTruthy (episode.get "context_neighbor") then Sdk.contextNeighbor else ""))

/-- The lines of the block. -/
def promptLines (packet : PacketObject) : Option (List String) := do
  let status := packet.status.getD (.str "ok")
  let facts ← packet.facts.mapM printer.promptFact
  let episodes ← packet.episodes.mapM printer.promptEpisode
  pure (Sdk.blockLines (if status = .str "ok" then none else some (printer.strJson status))
    (packet.facts.any fun f ↦ isTruthy (f.get "contested")) facts episodes
    (packet.warnings.map printer.strJson))

/-- `build_prompt_context`. -/
def buildPromptContext (packet : PacketObject) : Option String :=
  if packet.facts = [] ∧ packet.episodes = [] ∧ packet.warnings = [] ∧
      packet.status.getD (.str "ok") = .str "ok" then some ""
  else (printer.promptLines packet).map "\n".intercalate

end Printer

/-! ## The packet the server sends -/

/-- A text that may be missing. -/
def textOrNull : Option String → PyJson
  | some s => .str s
  | none => .null

/-- The JSON of a freshness. -/
def Freshness.text : Freshness → String
  | .current => "current"
  | .unconfirmed => "unconfirmed"
  | .stale => "stale"

/-- The JSON of a period. -/
def TemporalRange.object (range : TemporalRange) : PyJson :=
  .obj [("start", .str range.start), ("end", .str range.end)]

/-- The keys of an item of `packet["facts"]` that are printed. -/
def PacketFact.object (printer : Printer) (item : PacketFact) : Dict where
  rows :=
    [("ref", .str item.ref), ("predicate", .str item.predicate), ("value", .obj item.value.rows),
      ("valid_from", textOrNull item.validFrom),
      ("valid_from_short", textOrNull item.validFromShort),
      ("valid_from_relative", textOrNull item.validFromRelative),
      ("temporal_range", (item.temporalRange.map TemporalRange.object).getD .null),
      ("auto_reclassified", .bool item.autoReclassified),
      ("last_confirmed", .str item.lastConfirmed), ("freshness", .str item.freshness.text),
      ("attributed_to", item.attributedTo.getD .null),
      ("contested", .bool item.conflictId.isSome),
      ("conflict_id", textOrNull (item.conflictId.map printer.strConflictId))]
  nodup := by
    show List.Nodup ["ref", "predicate", "value", "valid_from", "valid_from_short",
      "valid_from_relative", "temporal_range", "auto_reclassified", "last_confirmed", "freshness",
      "attributed_to", "contested", "conflict_id"]
    decide

/-- The keys of an item of `packet["episodes"]` that are printed. -/
def PacketEpisode.object (item : PacketEpisode) : Dict where
  rows :=
    [("ref", .str item.ref), ("kind", .str item.kind), ("occurred_at", .str item.occurredAt),
      ("occurred_at_short", textOrNull item.occurredAtShort),
      ("occurred_at_relative", textOrNull item.occurredAtRelative),
      ("excerpt", .str item.excerpt), ("context_neighbor", .bool item.contextNeighbor)]
  nodup := by
    show List.Nodup ["ref", "kind", "occurred_at", "occurred_at_short", "occurred_at_relative",
      "excerpt", "context_neighbor"]
    decide

/-- The JSON of a status. -/
def ContextStatus.text : ContextStatus → String
  | .ok => "ok"
  | .degraded => "degraded"

/-- The packet with the line of every item. -/
def ContextPacket.object (printer : Printer) (packet : ContextPacket) : PacketObject where
  facts := packet.facts.map fun p ↦ (p.item.object printer).set "line" (.str p.line)
  episodes := packet.episodes.map fun p ↦ p.item.object.set "line" (.str p.line)
  warnings := packet.warnings.map .str
  status := some (.str packet.status.text)

/-- The packet as a server without the field `line` sends it. -/
def ContextPacket.objectWithoutLines (printer : Printer) (packet : ContextPacket) :
    PacketObject where
  facts := packet.facts.map fun p ↦ p.item.object printer
  episodes := packet.episodes.map fun p ↦ p.item.object
  warnings := packet.warnings.map .str
  status := some (.str packet.status.text)

/-! ## `seen` -/

/-- The ids a packet gives. -/
def ContextPacket.ids (packet : ContextPacket) : List ItemId :=
  packet.facts.map (fun p ↦ .fact p.item.id) ++ packet.episodes.map fun p ↦ .episode p.item.episodeId

/-- `seen`: the ids packets of the server give, each once.  They are what `exclude_ids` parses. -/
def seen (packets : List ContextPacket) : List ItemId := (packets.flatMap ContextPacket.ids).eraseDups

section Object

@[simp] theorem get_mk (rows : List (String × PyJson)) (h : (rows.map key).Nodup) (k : String) :
    Dict.get ⟨rows, h⟩ k = entryGet rows k := rfl

@[simp] theorem entryGet_cons (l : String) (v : PyJson) (rows : List (String × PyJson))
    (k : String) : entryGet ((l, v) :: rows) k = if l = k then v else entryGet rows k := by
  by_cases h : l = k <;> simp [entryGet, h]

@[simp] theorem entryGet_nil (k : String) : entryGet [] k = .null := rfl

@[simp] theorem get_set_self (d : Dict) (k : String) (v : PyJson) : (d.set k v).get k = v := by
  rw [Dict.get, Dict.value?_set, if_pos rfl]
  rfl

/-- Setting a key changes what is read under it only. -/
theorem get_set_of_ne {d : Dict} {k l : String} (v : PyJson) (h : k ≠ l) :
    (d.set k v).get l = d.get l := by
  rw [Dict.get, Dict.value?_set, if_neg h, Dict.get]

end Object

end Haki
