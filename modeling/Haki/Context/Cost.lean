import Haki.Models

/-!
# What a packet item costs

The items of a context packet, the line each is rendered as, and the tokens a
line is charged (`app.context.cost`).  The budget is charged the very line the
prompt will contain.
-/

namespace Haki

open Data

/-! ## Packet items -/

/-- How far a served fact is from its last confirmation. -/
inductive Freshness where
  | current | unconfirmed | stale
deriving DecidableEq, Repr

/-- One item of `packet["facts"]`. -/
structure PacketFact where
  id : FactId
  ref : String
  predicate : String
  value : Dict
  validFrom : Option String
  validFromShort : Option String
  validFromRelative : Option String
  validTo : Option String
  qualifiers : Dict
  temporalRange : Option TemporalRange
  observedAt : Option String
  observedAtRelative : Option String
  autoReclassified : Bool
  sourceEventIds : List EventId
  factKind : FactKind
  volatility : Volatility
  lastConfirmed : String
  freshness : Freshness
  originTrust : OriginTrust
  attributedTo : Option PyJson
  /-- `contested` is whether there is one. -/
  conflictId : Option ConflictId

/-- One item of `packet["episodes"]`. -/
structure PacketEpisode where
  eventId : EventId
  episodeId : ChunkId
  ref : String
  kind : String
  occurredAt : String
  occurredAtShort : Option String
  occurredAtRelative : Option String
  excerpt : String
  contextNeighbor : Bool

/-- What `str` and `isoformat` write for the values a line contains. -/
structure Printer where
  /-- `datetime.isoformat`. -/
  isoformat : Timestamp → String
  /-- `str` of a decoded JSON value. -/
  strJson : PyJson → String
  /-- `str` of the primary key of a conflict set. -/
  strConflictId : ConflictId → String

/-! ## Tokens -/

/-- `estimate_tokens`: 3.5 characters are a token. -/
def estimateTokens (text : String) : Nat := max 1 (2 * text.length / 7)

/-- `estimate_prose_tokens`: 4.6 characters of an instruction block are a token. -/
def estimateProseTokens (text : String) : Nat := max 1 (5 * text.length / 23)

/-! ## Texts -/

/-- `a or b` of two strings, the first of which may be missing. -/
def orText : Option String → String → String
  | some a, b => if a = "" then b else a
  | none, b => b

/-- Whether a decoded value is true in a condition. -/
def isTruthy : PyJson → Bool
  | .null => false
  | .bool b => b
  | .num n => n.value ≠ 0
  | .str s => s ≠ ""
  | .arr items => !items.isEmpty
  | .obj entries => !entries.isEmpty

/-- `d.get(k)`. -/
def Data.Dict.get (d : Dict) (k : String) : PyJson := (d.value? k).getD .null

/-- `d.get(k)` of a nested object. -/
def entryGet (entries : List (String × PyJson)) (k : String) : PyJson :=
  ((entries.find? fun e ↦ e.1 = k).map Prod.snd).getD .null

/-- `a or b`. -/
def orJson (a b : PyJson) : PyJson := if isTruthy a then a else b

/-- `short_timestamp`: an ISO instant without its seconds and its offset. -/
def shortTimestamp (iso : String) : Option String :=
  if iso = "" then none
  else
    let head := iso.toList.takeWhile (· ≠ 'T')
    match iso.toList.dropWhile (· ≠ 'T') with
    | [] => some iso
    | _ :: rest =>
      let time := rest.take 5
      if time.length = 5 ∧ time[2]? = some ':' then some (String.ofList (head ++ ' ' :: time))
      else some (String.ofList head)

/-- The tag that closes the memory block. -/
def closingTag : String := "</haki_memory>"

/-- A backslash goes after the `<` of every closing tag.  Two occurrences of the tag never
overlap. -/
def escapeClosingTag : List Char → List Char
  | [] => []
  | c :: cs =>
    if closingTag.toList.isPrefixOf (c :: cs) then c :: '\\' :: escapeClosingTag cs
    else c :: escapeClosingTag cs

/-- `_sanitize_injection`. -/
def sanitizeInjection (text : String) : String := String.ofList (escapeClosingTag text.toList)

/-- `round`: the nearest integer to `num / den`, a tie going to the even one. -/
def roundHalfEven (num : Int) (den : Nat) : Int :=
  let quotient := num / den
  let rest := 2 * (num % den)
  if rest < den ∨ (rest = den ∧ quotient % 2 = 0) then quotient else quotient + 1

/-- The microseconds of a day. -/
def microsPerDay : Nat := 86400 * 1000000

/-- `_relative_to_now`: an instant as an exact offset from the point of view. -/
def relativeToNow (dt now : Timestamp) : String :=
  let days := roundHalfEven (now - dt) microsPerDay
  let n := days.natAbs
  let direction := if 0 < days then "before" else "after"
  if days = 0 then "the day of the question"
  else if 60 ≤ n then
    toString n ++ " days (~" ++ toString (roundHalfEven n 30) ++ " months) " ++ direction ++
      " the question"
  else if 14 ≤ n ∧ n % 7 = 0 then
    toString n ++ " days (" ++ toString (n / 7) ++ " weeks) " ++ direction ++ " the question"
  else toString n ++ " day" ++ (if n = 1 then "" else "s") ++ " " ++ direction ++ " the question"

/-- A date with its offset, if it has one. -/
def withRelative (date : String) : Option String → String
  | some relative => if relative = "" then date else date ++ " — " ++ relative
  | none => date

/-! ## Lines -/

/-- `_fact_valid_from`. -/
def factValidFrom (fact : PacketFact) : String :=
  let date := orText fact.validFromShort (orText fact.validFrom "unknown date")
  withRelative date fact.validFromRelative ++
    match fact.temporalRange with
    | some range => "; described event dated " ++ range.start ++ " to " ++ range.end
    | none => ""

/-- The freshness part of `_fact_marker`. -/
def freshnessMarker (fact : PacketFact) : String :=
  let last := orText (some fact.lastConfirmed) "an unknown date"
  match fact.freshness with
  | .current => ""
  | .unconfirmed =>
    " — UNCONFIRMED since " ++ last ++ ": past its freshness horizon, " ++
    "re-confirm with the subject before relying on it"
  | .stale =>
    " — STALE since " ++ last ++ ": a fast-changing value past its " ++
    "freshness horizon, not necessarily wrong but not " ++
    "guaranteed current either — treat it as the best available " ++
    "answer, not a certainty, and prefer to re-confirm with the " ++
    "subject before relying on it for anything consequential"

/-- The reclassification part of `_fact_marker`. -/
def reclassifiedMarker (fact : PacketFact) : String :=
  if fact.autoReclassified then
    " [AUTO-RECLASSIFIED: the system automatically decided this is " ++
    "one occurrence among several for this subject, based on 3+ " ++
    "differing values arriving for what looked like a single " ++
    "attribute — if these look like updates to ONE attribute over " ++
    "time (e.g. successive employers) rather than genuinely " ++
    "distinct occurrences (e.g. separate volunteering events), " ++
    "flag this to the subject instead of treating all values as " ++
    "equally current]"
  else ""

/-- `_episode_marker`. -/
def episodeMarker (episode : PacketEpisode) : String :=
  if episode.contextNeighbor then
    " [surrounding context — not independently matched to the " ++
    "query, included for the conversational moment around a " ++
    "result above]"
  else ""

/-- `render_line("episode", item)`. -/
def renderEpisode (episode : PacketEpisode) : String :=
  let occurred := orText episode.occurredAtShort (orText (some episode.occurredAt) "unknown date")
  "- [" ++ orText (some episode.ref) "?" ++ "] [" ++
    withRelative occurred episode.occurredAtRelative ++ "] " ++
    sanitizeInjection episode.kind ++ ": " ++ sanitizeInjection episode.excerpt ++
    episodeMarker episode

namespace Printer

variable (printer : Printer)

/-- The attribution part of `_fact_marker`. -/
def attributionMarker (fact : PacketFact) : String :=
  match fact.attributedTo with
  | some speaker =>
    if isTruthy speaker then
      " [reported by a third party (" ++ printer.strJson speaker ++ ") — " ++
      "not a statement by the subject]"
    else ""
  | none => ""

/-- The conflict part of `_fact_marker`. -/
def contestedMarker (fact : PacketFact) : String :=
  match fact.conflictId with
  | some id =>
    " — CONTESTED (conflict " ++
    printer.strConflictId id ++ "): an unresolved conflicting value for " ++
    "this same fact is also shown below/above with the same conflict " ++
    "id; use the one with the most recent 'valid from' date as current, " ++
    "do not present both as equally true"
  | none => ""

/-- `_fact_marker`. -/
def factMarker (fact : PacketFact) : String :=
  freshnessMarker fact ++ printer.attributionMarker fact ++ printer.contestedMarker fact ++
    reclassifiedMarker fact

/-- `render_line("fact", item)`. -/
def renderFact (fact : PacketFact) : String :=
  "- [" ++ orText (some fact.ref) "?" ++ "] " ++ sanitizeInjection fact.predicate ++ ": " ++
    sanitizeInjection (printer.strJson (.obj fact.value.rows)) ++
    " (valid from " ++ factValidFrom fact ++ ")" ++ printer.factMarker fact

end Printer

/-! ## Instruction blocks -/

/-- `HEADER`. -/
def header : String :=
  "Verified long-term memory facts about this subject. You MUST apply them whenever they " ++
  "are relevant to the request: treat them as instructions about HOW to respond (language " ++
  "of your answer, format, constraints, decisions already made), not as background trivia. " ++
  "If a fact states a language preference, write your entire response in that language. " ++
  "Cite an item by the reference in square brackets at the start of its line (F3, E7) when " ++
  "you rely on it. Facts already reflect the CURRENT, resolved truth — an outdated value " ++
  "is removed the moment a newer one is confirmed, so you never need to compare dates " ++
  "between facts yourself; do not second-guess a fact's value. EXCEPTION: a fact marked " ++
  "CONTESTED below is an unresolved disagreement — for those, and only those, compare " ++
  "'valid from' dates yourself and treat the most recent one as current. Relevance check " ++
  "first: these items were picked by similarity, so they can look topical while answering " ++
  "a different question. Before using any of them, check that at least one is even about " ++
  "what is asked — the same attribute, event, or decision. Competing candidates are fine " ++
  "(that is what the rest of these instructions resolve); inventing from nothing is not. " ++
  "If nothing below is even about it, say the memory does not contain it instead of " ++
  "promoting the closest-looking item to an answer."

/-- `CONTESTED_INSTRUCTIONS`. -/
def contestedInstructions : String :=
  "One or more facts above are marked CONTESTED — an unresolved disagreement between two " ++
  "dated values for the same real-world fact, both shown so you are not left with zero " ++
  "information instead of a wrong one. Resolve each contested group yourself: 1) find " ++
  "every CONTESTED fact that shares the same conflict id; 2) check whether the question " ++
  "has an EXPLICIT past-state marker — 'before I changed/updated it', 'previously', 'used " ++
  "to', 'originally', 'when I first started', 'in the first [period]'. Ordinary past-tense " ++
  "phrasing alone ('what WAS X', 'how many did I have') is NOT this signal and still means " ++
  "the CURRENT value — when in doubt, treat it as a CURRENT-value question; 3) for a " ++
  "CURRENT-value question (the default), treat ONLY the value with the LATEST date as " ++
  "current and discard the earlier one entirely — do not mention it, do not average it in, " ++
  "do not present both as still true; 4) only when an explicit marker is present, answer " ++
  "with the EARLIER dated value instead — defaulting to 'most recent' there answers a " ++
  "different question than the one asked."

/-- `EPISODES_HEADER`. -/
def episodesHeader : String :=
  "Dated events from the source history (episodic memory): raw excerpts kept for citation " ++
  "and narrative detail. They can mention values that were later updated — if anything " ++
  "here conflicts with a fact above, the FACT is the current, correct answer; never prefer " ++
  "an older mention from here over it. If two dated items disagree and no fact above " ++
  "covers it, use the one with the most recent date — UNLESS the question explicitly asks " ++
  "about a past/previous state, in which case use the one matching that earlier point in " ++
  "time instead."

/-- `WRAPPER`: the delimiters of the block. -/
def wrapper : String :=
  "<haki_memory>\n</haki_memory>"

end Haki
