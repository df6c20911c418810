import Haki.Data.JsValue
import Haki.Sdk.Runtime

/-!
# The TypeScript SDK

`buildPromptContext` (`src/sdk/typescript/src/runtime.ts`), over the same
packets and texts as the Python SDK.

`none` is an exception: a value that has no text.
-/

namespace Haki.Data.JsEngine

open Haki

variable (engine : JsEngine)

/-- A template around the text of a value that is true, and nothing otherwise. -/
def whenTruthy (condition value : JsValue) (template : String → String) : Option String :=
  if truthy condition then (engine.text value).map template else some ""

/-- The date of a fact or an episode, with its offset. -/
def promptDate (item : Dict) (short date relative : String) : Option String := do
  let text ← engine.text (nullish (item.value? short)
    (nullish (item.value? date) (some (.str "unknown date"))))
  if truthy (item.value? relative) then
    (engine.text (item.value? relative)).map (Sdk.dated text)
  else pure text

/-- `validFrom`. -/
def promptValidFrom (fact : Dict) : Option String := do
  let date ← engine.promptDate fact "valid_from_short" "valid_from" "valid_from_relative"
  let range := fact.value? "temporal_range"
  if truthy range then
    let start ← engine.text (property range "start")
    let stop ← engine.text (property range "end")
    pure (date ++ Sdk.period start stop)
  else pure date

/-- `marker`. -/
def promptMarker (fact : Dict) : Option String := do
  let last := nullish (fact.value? "last_confirmed") (some (.str "an unknown date"))
  let freshness ←
    if fact.value? "freshness" = some (.str "unconfirmed") then
      (engine.text last).map Sdk.unconfirmedSince
    else if fact.value? "freshness" = some (.str "stale") then
      (engine.text last).map Sdk.staleSince
    else some ""
  let reported ←
    engine.whenTruthy (fact.value? "attributed_to") (fact.value? "attributed_to") Sdk.reportedBy
  let contested ←
    engine.whenTruthy (fact.value? "contested") (fact.value? "conflict_id") Sdk.contestedIn
  pure (freshness ++ reported ++ contested ++
    if truthy (fact.value? "auto_reclassified") then Sdk.autoReclassified else "")

/-- `JSON.stringify` of a property, as a text. -/
def jsonText : JsValue → String
  | some a => engine.stringify a
  | none => "undefined"

/-- The line of a fact: the server's, or the fallback for an older server. -/
def promptFact (fact : Dict) : Option String :=
  if truthy (fact.value? "line") then engine.text (fact.value? "line")
  else do
    let validFrom ← engine.promptValidFrom fact
    let marker ← engine.promptMarker fact
    let ref ← engine.text (nullish (fact.value? "ref") (some (.str "?")))
    let predicate ← engine.text (fact.value? "predicate")
    pure (Sdk.factLine ref predicate (engine.jsonText (fact.value? "value")) validFrom marker)

/-- The line of an episode, likewise. -/
def promptEpisode (episode : Dict) : Option String :=
  if truthy (episode.value? "line") then engine.text (episode.value? "line")
  else do
    let occurred ←
      engine.promptDate episode "occurred_at_short" "occurred_at" "occurred_at_relative"
    let ref ← engine.text (nullish (episode.value? "ref") (some (.str "?")))
    let kind ← engine.text (episode.value? "kind")
    let excerpt ← engine.text (episode.value? "excerpt")
    pure (Sdk.episodeLine ref occurred kind excerpt
      (if truthy (episode.value? "context_neighbor") then Sdk.contextNeighbor else ""))

/-- `status`. -/
def promptStatus (packet : PacketObject) : JsValue := nullish packet.status (some (.str "ok"))

/-- The lines of the block. -/
def promptLines (packet : PacketObject) : Option (List String) := do
  let facts ← packet.facts.mapM engine.promptFact
  let episodes ← packet.episodes.mapM engine.promptEpisode
  let warnings ← packet.warnings.mapM engine.valueText
  let status ←
    if promptStatus packet = some (.str "ok") then some none
    else (engine.text (promptStatus packet)).map some
  pure (Sdk.blockLines status (packet.facts.any fun f ↦ truthy (f.value? "contested")) facts
    episodes warnings)

/-- `buildPromptContext`. -/
def buildPromptContext (packet : PacketObject) : Option String :=
  if packet.facts = [] ∧ packet.episodes = [] ∧ packet.warnings = [] ∧
      promptStatus packet = some (.str "ok") then some ""
  else (engine.promptLines packet).map "\n".intercalate

end Haki.Data.JsEngine
