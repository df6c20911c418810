import Haki.Properties.Chunks

/-!
# The bounds of chunking

Between one and 200 chunks come out of an event, and none is empty.  Cutting
keeps every piece of an opaque payload below the ceiling, and so does cutting
the joined tail; a turn of a conversation is not cut.
-/

namespace Haki

open Data

/-! ## Stripping -/

theorem length_strip_le (l : List Char) : (strip isSpace l).length ≤ l.length :=
  ((List.rdropWhile_prefix _ _).sublist.trans (List.dropWhile_sublist _)).length_le

/-- Stripping twice is stripping once. -/
theorem strip_strip (l : List Char) :
    strip isSpace (strip isSpace l) = strip isSpace l := by
  have hprefix : strip isSpace l <+: l.dropWhile isSpace := List.rdropWhile_prefix _ _
  have hhead : (strip isSpace l).dropWhile isSpace = strip isSpace l := by
    refine List.dropWhile_eq_self_iff.mpr fun hlen ↦ ?_
    have hlen' : 0 < (l.dropWhile isSpace).length := hlen.trans_le hprefix.length_le
    have hget : (strip isSpace l)[0] = (l.dropWhile isSpace)[0] := hprefix.getElem hlen
    rw [hget]
    exact List.dropWhile_get_zero_not isSpace l hlen'
  rw [strip, hhead]
  exact List.rdropWhile_idempotent _ _

/-! ## An opaque payload -/

theorem length_cutLong (l : List Char) :
    (∀ chunk ∈ (cutLong l).1, chunk.length ≤ chunkMaxChars) ∧
      (cutLong l).2.length ≤ chunkMaxChars := by
  induction l using cutLong.induct with
  | case1 l hlong ih =>
    rw [cutLong, if_pos hlong]
    refine ⟨?_, ih.2⟩
    rintro chunk (_ | ⟨_, hchunk⟩)
    · exact List.length_take_le _ _
    · exact ih.1 chunk hchunk
  | case2 l hshort =>
    rw [cutLong, if_neg hshort]
    exact ⟨List.forall_mem_nil _, not_lt.mp hshort⟩

/-- No chunk so far is above the ceiling, and neither is the current one. -/
def Bounded (p : List (List Char) × List Char) : Prop :=
  (∀ chunk ∈ p.1, chunk.length ≤ chunkMaxChars) ∧ p.2.length ≤ chunkMaxChars

theorem Bounded.addSentence {p : List (List Char) × List Char} (h : Bounded p)
    (sentence : List Char) : Bounded (addSentence p sentence) := by
  obtain ⟨chunks, current⟩ := p
  have hcut (chunks : List (List Char)) (current : List Char)
      (h : ∀ chunk ∈ chunks, chunk.length ≤ chunkMaxChars) :
      Bounded (chunks ++ (cutLong current).1, (cutLong current).2) := by
    refine ⟨fun chunk hchunk ↦ ?_, (length_cutLong current).2⟩
    rcases List.mem_append.mp hchunk with hchunk | hchunk
    · exact h chunk hchunk
    · exact (length_cutLong current).1 chunk hchunk
  rw [Haki.addSentence]
  dsimp only
  split
  · refine hcut _ _ fun chunk hchunk ↦ ?_
    rcases List.mem_append.mp hchunk with hchunk | hchunk
    · exact h.1 chunk hchunk
    · exact List.mem_singleton.mp hchunk ▸ h.2
  · exact hcut _ _ h.1

theorem Bounded.foldl {p : List (List Char) × List Char} (h : Bounded p)
    (sentences : List (List Char)) : Bounded (sentences.foldl Haki.addSentence p) := by
  induction sentences generalizing p with
  | nil => exact h
  | cons sentence sentences ih => exact ih (h.addSentence sentence)

theorem length_of_mem_splitParagraph {paragraph chunk : List Char}
    (h : chunk ∈ splitParagraph paragraph) : chunk.length ≤ chunkMaxChars := by
  rw [splitParagraph] at h
  dsimp only at h
  split at h
  · cases h
  · split at h
    · next hshort => exact List.mem_singleton.mp h ▸ hshort
    · have hbounded : Bounded ((split sentenceEnd (strip isSpace paragraph)).foldl
          addSentence ([], [])) := Bounded.foldl ⟨by rintro _ ⟨⟩, Nat.zero_le _⟩ _
      split at h
      · exact hbounded.1 chunk h
      · rcases List.mem_append.mp h with h | h
        · exact hbounded.1 chunk h
        · exact List.mem_singleton.mp h ▸ hbounded.2

section

variable {strJson : PyJson → String} {kind : String} {payload : Dict}

/-- The pieces of an opaque payload are below the ceiling. -/
theorem length_of_mem_pieces (hplain : messages? payload = none) {piece : List Char}
    (h : piece ∈ pieces strJson kind payload) : piece.length ≤ chunkMaxChars := by
  obtain ⟨hmem, -⟩ := List.mem_filter.mp h
  obtain ⟨chunk, hchunk, rfl⟩ := List.mem_map.mp hmem
  refine (length_strip_le chunk).trans ?_
  rw [hplain] at hchunk
  dsimp only at hchunk
  split at hchunk
  · obtain ⟨paragraph, -, hchunk⟩ := List.mem_flatMap.mp hchunk
    exact length_of_mem_splitParagraph hchunk
  · next hshort => exact List.mem_singleton.mp hchunk ▸ not_lt.mp hshort

/-! ## A conversation -/

theorem messageText_ne_nil (message : List (String × PyJson)) : messageText strJson message ≠ [] := by
  intro hempty
  have hsolid := congrArg (solid isSpace) hempty
  rw [messageText, solid_strip, solid_append, solid_cons isSpace ':'] at hsolid
  simp only [solid_nil, List.append_eq_nil_iff] at hsolid
  exact absurd hsolid.2.1 (by decide)

/-- The pieces of a conversation are its turns. -/
theorem pieces_of_messages {messages : List (List (String × PyJson))}
    (h : messages? payload = some messages) :
    pieces strJson kind payload = messages.map (messageText strJson) := by
  have hkeep : (messages.map (messageText strJson)).filter (· ≠ []) =
      messages.map (messageText strJson) := by
    refine List.filter_eq_self.mpr fun text htext ↦ ?_
    obtain ⟨message, -, rfl⟩ := List.mem_map.mp htext
    simpa using messageText_ne_nil message
  have hstrip : (messages.map (messageText strJson)).map (strip isSpace) =
      messages.map (messageText strJson) := by
    rw [List.map_map]
    exact List.map_congr_left fun message _ ↦ strip_strip _
  rw [pieces, h]
  dsimp only
  rw [hkeep, hstrip, hkeep]

theorem messages?_ne_nil {messages : List (List (String × PyJson))}
    (h : messages? payload = some messages) : messages ≠ [] := by
  rintro rfl
  rw [messages?] at h
  split at h
  · next items _ =>
    split at h
    · cases h
    · next hne =>
      cases items with
      | nil => exact hne rfl
      | cons item items =>
        rw [List.mapM_cons] at h
        obtain ⟨_, -, h⟩ := Option.bind_eq_some_iff.mp h
        obtain ⟨_, -, h⟩ := Option.bind_eq_some_iff.mp h
        cases h
  · cases h

/-- Every event has a piece. -/
theorem pieces_ne_nil (strJson : PyJson → String) (kind : String) (payload : Dict) :
    pieces strJson kind payload ≠ [] := by
  cases hm : messages? payload with
  | some messages =>
    rw [pieces_of_messages hm]
    exact fun h ↦ messages?_ne_nil hm (List.map_eq_nil_iff.mp h)
  | none =>
    intro hempty
    have hsolid := solid_pieces strJson kind payload
    rw [hempty, sourceText, hm, List.flatten_nil, solid_nil] at hsolid
    have hbrace : Char.ofNat 123 ∈ solid isSpace (blob kind payload) :=
      List.mem_filter.mpr ⟨by simp [blob, Dict.dumps, dumpsObject], by decide⟩
    rw [← hsolid] at hbrace
    cases hbrace

end

/-! ## Chunks -/

/-- What chunking promises of the chunks of an event. -/
structure ChunkBounds (chunks : List String) : Prop where
  ne_nil : chunks ≠ []
  count : chunks.length ≤ maxChunksPerEvent
  ne_empty : ∀ chunk ∈ chunks, chunk ≠ ""
  length : ∀ chunk ∈ chunks, chunk.length ≤ chunkMaxChars

/-- The turns that become chunks of their own. -/
def turnsKept (messages : List (List (String × PyJson))) : List (List (String × PyJson)) :=
  if messages.length ≤ maxChunksPerEvent then messages
  else messages.take (maxChunksPerEvent - 1)

/-- The pieces that become chunks of their own. -/
def piecesKept (pieces : List (List Char)) : List (List Char) :=
  if pieces.length ≤ maxChunksPerEvent then pieces else pieces.take (maxChunksPerEvent - 1)

theorem piecesKept_map (strJson : PyJson → String) (messages : List (List (String × PyJson))) :
    piecesKept (messages.map (messageText strJson)) =
      (turnsKept messages).map (messageText strJson) := by
  rw [piecesKept, turnsKept, List.length_map]
  split
  · rfl
  · rw [List.map_take]

theorem mem_of_mem_piecesKept {ls : List (List Char)} {l : List Char} (h : l ∈ piecesKept ls) :
    l ∈ ls := by
  rw [piecesKept] at h
  split at h
  · exact h
  · exact List.mem_of_mem_take h

section

variable {strJson : PyJson → String} {kind : String} {payload : Option Dict}

/-- The chunks of an event are the pieces that are kept, and at most a tail below the ceiling. -/
theorem exists_chunkPayload (strJson : PyJson → String) (kind : String) (payload : Option Dict) :
    ∃ tail : List (List Char), (∀ l ∈ tail, l ≠ [] ∧ l.length ≤ chunkMaxChars) ∧
      piecesKept (pieces strJson kind (payload.getD .empty)) ++ tail ≠ [] ∧
      (piecesKept (pieces strJson kind (payload.getD .empty)) ++ tail).length ≤
        maxChunksPerEvent ∧
      chunkPayload strJson kind payload =
        (piecesKept (pieces strJson kind (payload.getD .empty)) ++ tail).map String.ofList := by
  have hne := pieces_ne_nil strJson kind (payload.getD .empty)
  rw [chunkPayload, if_neg hne, piecesKept]
  by_cases hfew : (pieces strJson kind (payload.getD .empty)).length ≤ maxChunksPerEvent
  · rw [if_pos hfew, if_neg (not_lt.mpr hfew)]
    exact ⟨[], List.forall_mem_nil _, by rwa [List.append_nil], by rwa [List.append_nil],
      by rw [List.append_nil]⟩
  · rw [if_neg hfew, if_pos (not_le.mp hfew)]
    refine ⟨[_], ?_, List.concat_ne_nil _ _, ?_, rfl⟩
    · rw [List.forall_mem_singleton]
      refine ⟨?_, List.length_take_le _ _⟩
      -- The joined tail ends with a character, so its first one is there to be kept.
      have htail : EndsSolid ([' '].intercalate
          ((pieces strJson kind (payload.getD .empty)).drop (maxChunksPerEvent - 1))) := by
        refine endsSolid_intercalate (fun hnil ↦ hfew ?_) fun piece hpiece ↦
          endsSolid_of_mem_pieces strJson kind _ (List.mem_of_mem_drop hpiece)
        exact (List.drop_eq_nil_iff.mp hnil).trans (Nat.sub_le _ _)
      obtain ⟨c, hc, -⟩ := htail
      rw [Ne, List.take_eq_nil_iff, not_or]
      refine ⟨by decide, fun hnil ↦ ?_⟩
      rw [hnil] at hc
      cases hc
    · rw [List.length_append, List.length_singleton]
      have := List.length_take_le (maxChunksPerEvent - 1)
        (pieces strJson kind (payload.getD .empty))
      have hpos : 0 < maxChunksPerEvent := by decide
      omega

/-- **Bounds of chunking.**  The chunks of an event are within their bounds exactly when it is no
conversation, or no turn that becomes a chunk of its own is above the ceiling. -/
theorem chunkBounds_iff (strJson : PyJson → String) (kind : String) (payload : Option Dict) :
    ChunkBounds (chunkPayload strJson kind payload) ↔
      ∀ messages, messages? (payload.getD .empty) = some messages →
        ∀ message ∈ turnsKept messages, (messageText strJson message).length ≤ chunkMaxChars := by
  obtain ⟨tail, htail, hne, hcount, hchunks⟩ := exists_chunkPayload strJson kind payload
  have hlength (l : List Char) : (String.ofList l).length = l.length := String.length_ofList
  constructor
  · intro h messages hm message hmessage
    have hpiece : messageText strJson message ∈
        piecesKept (pieces strJson kind (payload.getD .empty)) := by
      rw [pieces_of_messages hm, piecesKept_map]
      exact List.mem_map_of_mem hmessage
    rw [← hlength]
    refine h.length _ ?_
    rw [hchunks]
    exact List.mem_map_of_mem (List.mem_append_left _ hpiece)
  · intro h
    have hpieces : ∀ l ∈ piecesKept (pieces strJson kind (payload.getD .empty)),
        l ≠ [] ∧ l.length ≤ chunkMaxChars := by
      intro l hl
      refine ⟨fun hnil ↦ ?_, ?_⟩
      · obtain ⟨c, hc, -⟩ := endsSolid_of_mem_pieces strJson kind _ (mem_of_mem_piecesKept hl)
        rw [hnil] at hc
        cases hc
      · cases hm : messages? (payload.getD .empty) with
        | none => exact length_of_mem_pieces hm (mem_of_mem_piecesKept hl)
        | some messages =>
          rw [pieces_of_messages hm, piecesKept_map] at hl
          obtain ⟨message, hmessage, rfl⟩ := List.mem_map.mp hl
          exact h messages hm message hmessage
    have hall : ∀ l ∈ piecesKept (pieces strJson kind (payload.getD .empty)) ++ tail,
        l ≠ [] ∧ l.length ≤ chunkMaxChars := List.forall_mem_append.mpr ⟨hpieces, htail⟩
    rw [hchunks]
    refine ⟨fun hnil ↦ hne (List.map_eq_nil_iff.mp hnil), by rwa [List.length_map], ?_, ?_⟩
    · rintro _ hchunk hempty
      obtain ⟨l, hl, rfl⟩ := List.mem_map.mp hchunk
      exact (hall l hl).1 (String.ofList_eq_empty_iff.mp hempty)
    · rintro _ hchunk
      obtain ⟨l, hl, rfl⟩ := List.mem_map.mp hchunk
      exact (hlength l).le.trans (hall l hl).2

end

/-- A turn of 1600 characters, behind the name of its speaker, is a chunk of 1606. -/
theorem long_turn_above_ceiling :
    ¬ ChunkBounds (chunkPayload (Json.pyStr fun _ ↦ true) "chat"
      (some (Sample.conversation (List.replicate 1 Sample.longTurn)))) := by
  have hcontent : Sample.longTurn.toList = List.replicate 1600 'a' := String.toList_ofList
  have hpieces := Sample.pieces_conversation Nat.one_ne_zero
    (congrArg ("user: ".toList ++ ·) hcontent.symm) (by decide +kernel) (by decide) "chat"
  have hchunks : chunkPayload (Json.pyStr fun _ ↦ true) "chat"
      (some (Sample.conversation (List.replicate 1 Sample.longTurn))) =
        [String.ofList ("user: ".toList ++ List.replicate 1600 'a')] := by
    rw [chunkPayload, Option.getD_some, hpieces]
    rfl
  intro h
  have hlong := h.length _ (hchunks ▸ List.mem_singleton_self _)
  rw [String.length_ofList, List.length_append, List.length_replicate] at hlong
  exact absurd hlong (by decide)

end Haki
