import Haki.Context.Cost
import Haki.Ledger.Capture

/-!
# The gateway

`chat_completions` and `capture_turn`: which exchange is captured as an event,
and under which key.  What the answer of the model was, and whether a packet
could be built, is part of a request here, as is the exchange it belongs to: a
network replay of a request belongs to the same one.
-/

namespace Haki

open Data

/-! ## Messages -/

/-- The texts of the parts of a message. -/
def textParts : List PyJson → Option (List String)
  | [] => some []
  | .obj part :: parts =>
    if entryGet part "type" = .str "text" then
      match (part.find? fun e ↦ e.1 = "text").map Prod.snd with
      | none => textParts parts
      | some (.str s) => (textParts parts).map fun texts ↦ if s = "" then texts else s :: texts
      | some other => if isTruthy other then none else textParts parts
    else textParts parts
  | _ :: parts => textParts parts

/-- `content_to_text`. -/
def contentToText : PyJson → Option String
  | .str s => orKey (some s)
  | .arr parts => orKey ((textParts parts).map "\n".intercalate)
  | _ => none

/-- `last_user_message`. -/
def lastUserMessage (messages : List PyJson) : Option String :=
  match messages.reverse.find? fun
    | .obj message => entryGet message "role" = .str "user"
    | _ => false with
  | some (.obj message) => contentToText (entryGet message "content")
  | _ => none

/-! ## Requests -/

/-- What the gateway calls that is not its own. -/
structure GatewayEnv where
  /-- `json.loads`. -/
  loads : String → Option PyJson
  /-- `sha256`, in hexadecimal digits. -/
  sha256 : String → String
  /-- The validation of `EventIn`. -/
  admits : EventIn → Bool

/-- A request, and what became of it. -/
structure GatewayRequest where
  /-- The exchange between the subject and the model it belongs to. -/
  exchange : Nat
  rawBody : String
  /-- `X-Haki-Subject-Id`. -/
  subjectId : Option String
  /-- `X-Haki-Thread-Id`. -/
  threadId : Option String
  /-- `X-Haki-Run-Id`. -/
  runId : Option String
  /-- `X-Haki-Idempotency-Key`. -/
  idempotencyKey : Option String
  now : Timestamp
  /-- The trace of the packet, when one could be built. -/
  traceId : Option String
  /-- The status of the answer and its text, when the provider was reached. -/
  upstream : Option (Nat × Option String)

/-- Two requests are the same one sent again. -/
structure GatewayRequest.Replays (r r' : GatewayRequest) : Prop where
  exchange : r.exchange = r'.exchange
  rawBody : r.rawBody = r'.rawBody
  subjectId : r.subjectId = r'.subjectId
  threadId : r.threadId = r'.threadId
  runId : r.runId = r'.runId

namespace GatewayEnv

variable (env : GatewayEnv)

/-- `default_idempotency_key`. -/
def defaultIdempotencyKey (rawBody : String) : String := "gw-" ++ env.sha256 rawBody

/-- The key a request is captured under. -/
def keyOf (r : GatewayRequest) : String :=
  (orKey r.idempotencyKey).getD (env.defaultIdempotencyKey r.rawBody)

/-- A message of a captured turn. -/
def turnMessage (role content : String) : PyJson :=
  .obj [("role", .str role), ("content", .str content)]

/-- The event of a captured turn. -/
def turnEvent (orgId projectId subjectId userText : String) (assistantText : Option String)
    (model : PyJson) (traceId : String) (r : GatewayRequest) : EventIn where
  orgId := orgId
  projectId := projectId
  subjectType := "user"
  subjectId := subjectId
  kind := "conversation.turn"
  occurredAt := r.now
  payload := ((Table.empty.insert ("messages", .arr (turnMessage "user" userText ::
    (assistantText.map (turnMessage "assistant")).toList))).insert ("model", model)).insert
      ("trace_id", .str traceId)
  threadId := r.threadId
  runId := r.runId
  idempotencyKey := some (env.keyOf r)

/-- The assistant side of an exchange that is captured: a streamed one has none, any other one needs
a successful answer. -/
def assistantSide (stream : Bool) : Option (Nat × Option String) → Option (Option String)
  | upstream =>
    if stream then some none
    else upstream.bind fun (status, text) ↦
      if 200 ≤ status ∧ status < 300 then some text else none

/-- `chat_completions`, as far as it captures: the event that is written. -/
def capturedTurn (orgId projectId : String) (r : GatewayRequest) : Option EventIn :=
  match env.loads r.rawBody with
  | some (.obj payload) =>
    match entryGet payload "messages" with
    | .arr messages => do
      let subjectId ← orKey r.subjectId
      let userText ← lastUserMessage messages
      let traceId ← r.traceId
      let assistantText ← assistantSide (isTruthy (entryGet payload "stream")) r.upstream
      let event := env.turnEvent orgId projectId subjectId userText assistantText
        (entryGet payload "model") traceId r
      if env.admits event then some event else none
    | _ => none
  | _ => none

/-- The captured turns of a sequence of requests. -/
def turns (orgId projectId : String) (requests : List GatewayRequest) :
    List (GatewayRequest × EventIn) :=
  requests.filterMap fun r ↦ (env.capturedTurn orgId projectId r).map fun event ↦ (r, event)

end GatewayEnv

/-! ## Runs -/

/-- `capture_turn`, one turn after the other: whether each one was stored. -/
def storeTurns (hash : EventContent → String) :
    EventStore → List (GatewayRequest × EventIn) → List (GatewayRequest × Bool)
  | _, [] => []
  | store, (r, event) :: turns =>
    (r, (store.writeEvents hash none [event]).any fun result ↦ !result.2) ::
      storeTurns hash (store.insertAll hash none [event]) turns

end Haki
