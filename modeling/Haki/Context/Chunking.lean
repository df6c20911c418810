import Haki.Context.Cost
import Haki.Data.Split

/-!
# Chunking

`chunk_payload` cuts an event into the texts that are retrieved and served
(`app.context.chunking`).  A list of messages is cut between its turns; any
other payload is serialised and cut at paragraphs, at sentences, and at last
by length.  At most `MAX_CHUNKS_PER_EVENT` chunks are kept: what is beyond is
joined into the last one.
-/

namespace Haki

open Data

/-- `CHUNK_TARGET_CHARS`. -/
def chunkTargetChars : Nat := 1000

/-- `CHUNK_MAX_CHARS`. -/
def chunkMaxChars : Nat := 1600

/-- `MAX_CHUNKS_PER_EVENT`. -/
def maxChunksPerEvent : Nat := 200

/-! ## Separators -/

/-- `_PARAGRAPH_BREAK`: from a line break to the last one of the same whitespace. -/
def paragraphBreak (_prev : Option Char) : List Char → Nat
  | '\n' :: cs =>
    let run := cs.takeWhile isSpace
    if '\n' ∈ run then 1 + (run.rdropWhile (· ≠ '\n')).length else 0
  | _ => 0

/-- `_SENTENCE_END`: the whitespace after a character that ends a sentence. -/
def sentenceEnd (prev : Option Char) (cs : List Char) : Nat :=
  if prev = some '.' ∨ prev = some '!' ∨ prev = some '?' then (cs.takeWhile isSpace).length else 0

/-! ## Pieces -/

/-- The loop that cuts a text longer than a chunk: what is cut off, and what is left. -/
def cutLong (current : List Char) : List (List Char) × List Char :=
  if chunkMaxChars < current.length then
    let rest := cutLong (current.drop chunkMaxChars)
    (current.take chunkMaxChars :: rest.1, rest.2)
  else ([], current)
termination_by current.length
decreasing_by
  rw [List.length_drop]
  have : 0 < chunkMaxChars := by decide
  omega

/-- One sentence of a long paragraph: the chunks so far, and the current one. -/
def addSentence (p : List (List Char) × List Char) (sentence : List Char) :
    List (List Char) × List Char :=
  let (chunks, current) := p
  let (chunks, current) :=
    if current ≠ [] ∧ chunkTargetChars < current.length + 1 + sentence.length then
      (chunks ++ [current], sentence)
    else (chunks, strip isSpace (current ++ ' ' :: sentence))
  let (cut, current) := cutLong current
  (chunks ++ cut, current)

/-- One paragraph. -/
def splitParagraph (paragraph : List Char) : List (List Char) :=
  let paragraph := strip isSpace paragraph
  if paragraph = [] then []
  else if paragraph.length ≤ chunkMaxChars then [paragraph]
  else
    let (chunks, current) := (split sentenceEnd paragraph).foldl addSentence ([], [])
    if current = [] then chunks else chunks ++ [current]

/-- `_split_on_boundaries`. -/
def splitOnBoundaries (text : List Char) : List (List Char) :=
  (split paragraphBreak text).flatMap splitParagraph

/-! ## `chunk_payload` -/

/-- The messages of a payload, when it is a conversation. -/
def messages? (payload : Dict) : Option (List (List (String × PyJson))) :=
  match payload.get "messages" with
  | .arr items =>
    if items = [] then none
    else items.mapM fun
      | .obj entries => some entries
      | _ => none
  | _ => none

section

variable (strJson : PyJson → String)

/-- `_message_text`, under Python's `str`. -/
def messageText (message : List (String × PyJson)) : List Char :=
  let role := orJson (entryGet message "role") (orJson (entryGet message "speaker") (.str "?"))
  let content := orJson (entryGet message "content") (orJson (entryGet message "text") (.str ""))
  strip isSpace ((strJson role).toList ++ ':' :: ' ' :: (strJson content).toList)

/-- An opaque payload, serialised after the kind of its event. -/
def blob (kind : String) (payload : Dict) : List Char :=
  kind.toList ++ ' ' :: (payload.dumps .default).toList

/-- The chunks before their number is bounded. -/
def pieces (kind : String) (payload : Dict) : List (List Char) :=
  let chunks :=
    match messages? payload with
    | some messages => (messages.map (messageText strJson)).filter (· ≠ [])
    | none =>
      if chunkMaxChars < (blob kind payload).length then splitOnBoundaries (blob kind payload)
      else [blob kind payload]
  (chunks.map (strip isSpace)).filter (· ≠ [])

/-- `chunk_payload`. -/
def chunkPayload (kind : String) (payload : Option Dict) : List String :=
  let chunks := pieces strJson kind (payload.getD .empty)
  (if chunks = [] then [kind.toList]
    else if maxChunksPerEvent < chunks.length then
      chunks.take (maxChunksPerEvent - 1) ++
        [([' '].intercalate (chunks.drop (maxChunksPerEvent - 1))).take chunkMaxChars]
    else chunks).map String.ofList

end

end Haki
