import Haki.Control.Interleave
import Haki.Data.Json
import Haki.Data.OrderedDict

/-!
# The local embedder

`LocalEmbedder._embed` with its two caches: the one of the process, bounded and
evicted oldest first, and the one in Redis that all workers share.  A call runs
in pieces between its awaits, on `mget`, on the thread that runs the model and
on the pipeline that stores; the pieces of several calls take turns, and other
workers store in between.

What Redis answers and how far a pipeline gets are left open.
-/

namespace Haki

open Control Data

/-- `_CACHE_MAX_ENTRIES`. -/
def cacheMaxEntries : Nat := 1024

/-- What becomes of a payload under `[float(x) for x in json.loads(payload)]`. -/
inductive Loaded (α : Type) where
  | vector (v : List α)
  /-- A `ValueError` or a `TypeError`. -/
  | malformed
  /-- Any other exception. -/
  | raises

/-- An embedder: its model and what it calls, over a type of floats. -/
structure LocalEmbedder (α : Type) where
  name : String
  dim : Nat
  queryPrefix : String
  docPrefix : String
  /-- The vector of a text, as `_embed_missing` converts it. -/
  model : String → List α
  /-- `hashlib.sha256(text.encode("utf-8")).hexdigest()`. -/
  sha256 : String → String
  /-- `json.dumps` of a vector. -/
  dumps : List α → String
  loads : String → Loaded α

/-- The vectors of texts, by text. -/
abbrev Vectors (α : Type) := Table (String × List α)

/-- A call of `embed_query` or of `embed`. -/
structure EmbedCall where
  query : Bool
  texts : List String

/-- Between two awaits: what a call waits for, or what it returned.  Its texts are the prefixed
ones. -/
inductive EmbedPhase (α : Type) where
  | ahead
  | lookup (call : EmbedCall) (texts : List String) (results : Vectors α) (missing : List String)
  | compute (call : EmbedCall) (texts : List String) (results : Vectors α)
      (stillMissing : List String)
  | store (call : EmbedCall) (texts : List String) (results computed : Vectors α)
  /-- `none` is a `KeyError`. -/
  | done (call : EmbedCall) (vectors : Option (List (List α)))

/-- What an await ends with: the answer of `mget`, if it did not fail, or how many commands of the
pipeline were executed. -/
structure EmbedAnswer where
  raw : Option (List (Option String)) := none
  executed : Nat := 0

/-- What a call does when it is its turn. -/
inductive EmbedTurn where
  | call (call : EmbedCall)
  | resume (answer : EmbedAnswer)

/-- The cache of the process, and the entries that were ever stored in Redis. -/
structure EmbedCaches (α : Type) where
  cache : Vectors α
  stored : List (String × String)

namespace LocalEmbedder

variable {α : Type} (E : LocalEmbedder α)

/-- `_shared_key`. -/
def sharedKey (text : String) : String := "haki:emb:v1:" ++ E.name ++ ":" ++ E.sha256 text

/-- The entry of a text in Redis. -/
def entry (text : String) (vector : List α) : String × String := (E.sharedKey text, E.dumps vector)

/-- The prefix of a call. -/
def prefixOf (call : EmbedCall) : String := if call.query then E.queryPrefix else E.docPrefix

/-- `[prefix + text for text in texts]`, if there is a prefix. -/
def prefixed (call : EmbedCall) : List String :=
  if E.prefixOf call = "" then call.texts else call.texts.map fun text ↦ E.prefixOf call ++ text

end LocalEmbedder

section

variable {α : Type}

/-- `cache[text] = vector`, and the oldest entries go. -/
def Vectors.put (cache : Vectors α) (text : String) (vector : List α) : Vectors α :=
  Table.trim cacheMaxEntries (cache.upsert (text, vector))

/-- The texts the process cache has, and those it does not have. -/
def lookInProcess (cache results : Vectors α) (missing : List String) :
    List String → Vectors α × Vectors α × List String
  | [] => (cache, results, missing)
  | text :: texts =>
    match cache.get? text with
    | some found => lookInProcess (cache.moveToEnd text) (results.upsert (text, found.2)) missing texts
    | none =>
      if (results.get? text).isNone ∧ text ∉ missing then
        lookInProcess cache results (missing ++ [text]) texts
      else lookInProcess cache results missing texts

/-- The last loop of `_embed`. -/
def keep (cache results computed : Vectors α) : Vectors α × Vectors α :=
  computed.rows.foldl (fun p r ↦ (p.1.put r.1 r.2, p.2.upsert r)) (cache, results)

/-- `[results[text] for text in texts]`. -/
def collect (results : Vectors α) (texts : List String) : Option (List (List α)) :=
  texts.mapM fun text ↦ (results.get? text).map Prod.snd

end

namespace LocalEmbedder

variable {α : Type} (E : LocalEmbedder α)

/-- The loop of `_shared_lookup`.  The last part is `none` when an exception leaves it. -/
def fill (cache results : Vectors α) (stillMissing : List String) :
    List (String × Option String) → Vectors α × Vectors α × Option (List String)
  | [] => (cache, results, some stillMissing)
  | (text, none) :: rest => fill cache results (stillMissing ++ [text]) rest
  | (text, some payload) :: rest =>
    match E.loads payload with
    | .vector v =>
      if v.length ≠ E.dim then fill cache results (stillMissing ++ [text]) rest
      else fill (cache.put text v) (results.upsert (text, v)) stillMissing rest
    | .malformed => fill cache results (stillMissing ++ [text]) rest
    | .raises => (cache, results, none)

/-- `_shared_lookup`, once `mget` has answered or failed. -/
def sharedLookup (cache results : Vectors α) (missing : List String)
    (raw : Option (List (Option String))) : Vectors α × Vectors α × List String :=
  match raw with
  | none => (cache, results, missing)
  | some raw =>
    let filled := E.fill cache results [] (missing.zip raw)
    (filled.1, filled.2.1, filled.2.2.getD missing)

/-- `_embed_missing`. -/
def embedMissing (texts : List String) : Vectors α :=
  texts.foldl (fun computed text ↦ computed.upsert (text, E.model text)) .empty

/-- The commands of `_shared_store`, in order. -/
def commands (computed : Vectors α) : List (String × String) :=
  computed.rows.map fun r ↦ E.entry r.1 r.2

/-- `_embed` up to its first await. -/
def start (call : EmbedCall) (s : EmbedCaches α) : EmbedCaches α × EmbedPhase α :=
  if call.texts = [] then (s, .done call (some []))
  else
    let texts := E.prefixed call
    let looked := lookInProcess s.cache .empty [] texts
    ({ s with cache := looked.1 },
      if looked.2.2 = [] then .done call (collect looked.2.1 texts)
      else .lookup call texts looked.2.1 looked.2.2)

/-- `_embed` from an await to the next one. -/
def resume (answer : EmbedAnswer) (s : EmbedCaches α) :
    EmbedPhase α → Option (EmbedCaches α × EmbedPhase α)
  | .lookup call texts results missing =>
    let looked := E.sharedLookup s.cache results missing answer.raw
    some ({ s with cache := looked.1 },
      if looked.2.2 = [] then .done call (collect looked.2.1 texts)
      else .compute call texts looked.2.1 looked.2.2)
  | .compute call texts results stillMissing =>
    some (s, .store call texts results (E.embedMissing stillMissing))
  | .store call texts results computed =>
    let kept := keep s.cache results computed
    some (⟨kept.1, s.stored ++ (E.commands computed).take answer.executed⟩,
      .done call (collect kept.2 texts))
  | .ahead | .done _ _ => none

/-- Calls side by side, while other workers store what they computed. -/
def handlers (ι : Type) : Handlers ι EmbedTurn String (EmbedCaches α) (EmbedPhase α) where
  turn _ m s phase :=
    match m, phase with
    | .call call, .ahead => some (E.start call s)
    | .call _, _ => none
    | .resume answer, phase => E.resume answer s phase
  env text s := some { s with stored := s.stored ++ [E.entry text (E.model text)] }

end LocalEmbedder

end Haki
