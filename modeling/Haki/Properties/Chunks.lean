import Haki.Context.Chunking
import Haki.Data.PyStr

/-!
# What chunking keeps

Cutting a payload into pieces loses no character but whitespace.  Bounding the
number of chunks does: the tail that is joined into the last chunk is cut to
the length of one.
-/

namespace Haki

open Data

/-! ## Cutting -/

theorem paragraphBreak_blank : BlankSeparator isSpace paragraphBreak := by
  intro prev cs c hc
  rw [paragraphBreak.eq_def] at hc
  split at hc
  · next cs =>
    dsimp only at hc
    split at hc
    · rw [Nat.add_comm, List.take_succ_cons] at hc
      rcases List.mem_cons.mp hc with rfl | hc
      · decide
      · have hprefix : (cs.takeWhile isSpace).rdropWhile (· ≠ '\n') <+: cs :=
          (List.rdropWhile_prefix _ _).trans (List.takeWhile_prefix _)
        rw [← List.prefix_iff_eq_take.mp hprefix] at hc
        exact List.mem_takeWhile_imp ((List.rdropWhile_prefix _ _).subset hc)
    · cases hc
  · cases hc

theorem sentenceEnd_blank : BlankSeparator isSpace sentenceEnd := by
  intro prev cs c hc
  rw [sentenceEnd] at hc
  split at hc
  · rw [← List.prefix_iff_eq_take.mp (List.takeWhile_prefix isSpace)] at hc
    exact List.mem_takeWhile_imp hc
  · cases hc

theorem cutLong_flatten (l : List Char) : (cutLong l).1.flatten ++ (cutLong l).2 = l := by
  induction l using cutLong.induct with
  | case1 l hlong ih =>
    rw [cutLong, if_pos hlong]
    calc (l.take chunkMaxChars :: (cutLong (l.drop chunkMaxChars)).1).flatten ++
          (cutLong (l.drop chunkMaxChars)).2
        = l.take chunkMaxChars ++ ((cutLong (l.drop chunkMaxChars)).1.flatten ++
            (cutLong (l.drop chunkMaxChars)).2) := by rw [List.flatten_cons, List.append_assoc]
      _ = l := by rw [ih, List.take_append_drop]
  | case2 l hshort =>
    rw [cutLong, if_neg hshort]
    rfl

/-- The characters of the chunks so far and of the current one. -/
def cutSolid (p : List (List Char) × List Char) : List Char :=
  solid isSpace (p.1.flatten ++ p.2)

theorem cutSolid_addSentence (p : List (List Char) × List Char) (sentence : List Char) :
    cutSolid (addSentence p sentence) = cutSolid p ++ solid isSpace sentence := by
  obtain ⟨chunks, current⟩ := p
  have hcut (chunks : List (List Char)) (current : List Char) :
      cutSolid (chunks ++ (cutLong current).1, (cutLong current).2) = cutSolid (chunks, current) := by
    rw [cutSolid, cutSolid, List.flatten_append, List.append_assoc, cutLong_flatten]
  rw [addSentence]
  dsimp only
  split
  · rw [hcut, cutSolid, cutSolid, List.flatten_append, solid_append, List.flatten_singleton]
  · have hblank : solid isSpace [' '] = [] := rfl
    rw [hcut, cutSolid, cutSolid, solid_append, solid_strip, solid_append, solid_cons isSpace ' ',
      hblank, List.nil_append, solid_append, List.append_assoc]

theorem cutSolid_foldl (p : List (List Char) × List Char) (sentences : List (List Char)) :
    cutSolid (sentences.foldl addSentence p) = cutSolid p ++ solid isSpace sentences.flatten := by
  induction sentences generalizing p with
  | nil => simp
  | cons sentence sentences ih =>
    rw [List.foldl_cons, ih, cutSolid_addSentence, List.flatten_cons, solid_append,
      List.append_assoc]

theorem solid_splitParagraph (paragraph : List Char) :
    solid isSpace (splitParagraph paragraph).flatten = solid isSpace paragraph := by
  have hstrip := solid_strip isSpace paragraph
  rw [splitParagraph]
  dsimp only
  split
  · next hempty => rw [← hstrip, hempty, List.flatten_nil]
  · split
    · rw [List.flatten_singleton, hstrip]
    · have hfold := cutSolid_foldl ([], []) (split sentenceEnd (strip isSpace paragraph))
      rw [solid_split sentenceEnd_blank, hstrip] at hfold
      rw [cutSolid] at hfold
      split
      · next hempty =>
        rw [hempty, List.append_nil] at hfold
        exact hfold
      · rw [List.flatten_append, List.flatten_singleton]
        exact hfold

theorem solid_splitOnBoundaries (text : List Char) :
    solid isSpace (splitOnBoundaries text).flatten = solid isSpace text := by
  rw [← solid_split paragraphBreak_blank text, splitOnBoundaries]
  induction split paragraphBreak text with
  | nil => rfl
  | cons paragraph paragraphs ih =>
    rw [List.flatMap_cons, List.flatten_append, solid_append, ih, solid_splitParagraph,
      List.flatten_cons, solid_append]

/-! ## Pieces -/

/-- The text of an event: its rendered turns, or its kind and its serialised payload. -/
def sourceText (strJson : PyJson → String) (kind : String) (payload : Dict) : List Char :=
  match messages? payload with
  | some messages => (messages.map (messageText strJson)).flatten
  | none => blob kind payload

section

variable (strJson : PyJson → String) (kind : String) (payload : Dict)

theorem solid_filter (ls : List (List Char)) :
    solid isSpace (ls.filter (· ≠ [])).flatten = solid isSpace ls.flatten := by
  induction ls with
  | nil => rfl
  | cons l ls ih =>
    by_cases h : l = []
    · rw [List.filter_cons_of_neg (by simp [h]), ih, h, List.flatten_cons, List.nil_append]
    · rw [List.filter_cons_of_pos (by simp [h]), List.flatten_cons, List.flatten_cons, solid_append,
        solid_append, ih]

/-- **No piece is lost.**  The pieces contain the text of the event. -/
theorem solid_pieces :
    solid isSpace (pieces strJson kind payload).flatten =
      solid isSpace (sourceText strJson kind payload) := by
  have hstrip (ls : List (List Char)) :
      solid isSpace (ls.map (strip isSpace)).flatten = solid isSpace ls.flatten := by
    induction ls with
    | nil => rfl
    | cons l ls ih =>
      rw [List.map_cons, List.flatten_cons, List.flatten_cons, solid_append, solid_append, ih,
        solid_strip]
  rw [pieces, sourceText, solid_filter, hstrip]
  cases messages? payload with
  | some messages => exact solid_filter _
  | none =>
    dsimp only
    split
    · exact solid_splitOnBoundaries _
    · rw [List.flatten_singleton]

/-- A text that ends with a character other than whitespace. -/
def EndsSolid (l : List Char) : Prop := ∃ c ∈ l.getLast?, isSpace c = false

theorem EndsSolid.append {l : List Char} (h : EndsSolid l) (a : List Char) : EndsSolid (a ++ l) := by
  obtain ⟨c, hc, hsolid⟩ := h
  refine ⟨c, ?_, hsolid⟩
  rw [List.getLast?_append, Option.mem_def.mp hc]
  rfl

theorem endsSolid_of_mem_pieces {piece : List Char} (h : piece ∈ pieces strJson kind payload) :
    EndsSolid piece := by
  obtain ⟨hmem, hne⟩ := List.mem_filter.mp h
  obtain ⟨chunk, -, rfl⟩ := List.mem_map.mp hmem
  have hne : strip isSpace chunk ≠ [] := by simpa using hne
  exact ⟨_, List.getLast?_eq_some_getLast hne, getLast_strip isSpace hne⟩

theorem endsSolid_intercalate {ls : List (List Char)} (hne : ls ≠ []) (h : ∀ l ∈ ls, EndsSolid l) :
    EndsSolid ([' '].intercalate ls) := by
  induction ls with
  | nil => exact absurd rfl hne
  | cons l ls ih =>
    cases ls with
    | nil =>
      rw [List.intercalate_singleton]
      exact h l List.mem_cons_self
    | cons l' ls =>
      rw [List.intercalate_cons_cons]
      exact (ih (List.cons_ne_nil _ _) fun m hm ↦ h m (List.mem_cons_of_mem _ hm)).append _

theorem solid_intercalate (ls : List (List Char)) :
    solid isSpace ([' '].intercalate ls) = solid isSpace ls.flatten := by
  induction ls with
  | nil => rfl
  | cons l ls ih =>
    cases ls with
    | nil => rw [List.intercalate_singleton, List.flatten_singleton]
    | cons l' ls =>
      have hblank : solid isSpace [' '] = [] := rfl
      rw [List.intercalate_cons_cons, solid_append, solid_append, ih, hblank, List.append_nil]
      exact (solid_append isSpace l _).symm

/-! ## Chunks -/

/-- The characters of a text that are not whitespace appear in the chunks in order. -/
def Keeps (text : List Char) (chunks : List String) : Prop :=
  (solid isSpace text).Sublist (chunks.map String.toList).flatten

/-- What the chunks after the last but one are joined to. -/
def joinedTail : List Char :=
  [' '].intercalate ((pieces strJson kind payload).drop (maxChunksPerEvent - 1))

/-- Cutting the joined tail cuts off its last character. -/
theorem not_sublist_of_cut {head tail : List Char} {n : Nat} (htail : EndsSolid tail)
    (hlong : n < tail.length) :
    ¬ (solid isSpace (head ++ tail)).Sublist (head ++ tail.take n) := by
  intro h
  obtain ⟨c, hc, hsolid⟩ := htail
  have hmem : c ∈ tail.drop n := by
    have hlast : (tail.drop n).getLast? = some c := by
      rw [List.getLast?_drop, if_neg (by omega), Option.mem_def.mp hc]
    exact List.mem_of_getLast? hlast
  have hpos : 0 < (solid isSpace (tail.drop n)).length :=
    List.length_pos_of_mem (List.mem_filter.mpr ⟨hmem, by simp [hsolid]⟩)
  have hfilter := h.filter (fun c ↦ !isSpace c)
  have hlength := hfilter.length_le
  have hsplit : tail = tail.take n ++ tail.drop n := (List.take_append_drop n tail).symm
  have htwice : (solid isSpace (head ++ tail)).filter (fun c ↦ !isSpace c) =
      solid isSpace (head ++ tail) := by
    rw [solid, List.filter_filter]
    simp
  have htaken : (head ++ tail.take n).filter (fun c ↦ !isSpace c) =
      solid isSpace (head ++ tail.take n) := rfl
  rw [htwice, htaken, solid_append, solid_append, List.length_append, List.length_append] at hlength
  have htailLength : (solid isSpace tail).length =
      (solid isSpace (tail.take n)).length + (solid isSpace (tail.drop n)).length := by
    rw [← List.length_append, ← solid_append, List.take_append_drop]
  omega

variable {strJson kind payload}

theorem solid_sourceText_eq : solid isSpace (sourceText strJson kind payload) =
    solid isSpace (((pieces strJson kind payload).take (maxChunksPerEvent - 1)).flatten ++
      joinedTail strJson kind payload) := by
  rw [solid_append, joinedTail, solid_intercalate, ← solid_append, ← List.flatten_append,
    List.take_append_drop, solid_pieces]

theorem map_toList_ofList (ls : List (List Char)) :
    (ls.map String.ofList).map String.toList = ls := by
  rw [List.map_map]
  exact List.map_id'' (fun l ↦ String.toList_ofList) ls

/-- Few pieces, or a short tail, are kept. -/
theorem keeps_of_fits {payload : Option Dict}
    (h : (pieces strJson kind (payload.getD .empty)).length ≤ maxChunksPerEvent ∨
      (joinedTail strJson kind (payload.getD .empty)).length ≤ chunkMaxChars) :
    Keeps (sourceText strJson kind (payload.getD .empty)) (chunkPayload strJson kind payload) := by
  have hsource := solid_pieces strJson kind (payload.getD .empty)
  rw [Keeps, chunkPayload, map_toList_ofList]
  split
  · next hempty =>
    rw [← hsource, hempty]
    exact List.nil_sublist _
  · split
    · next hmany =>
      rw [solid_sourceText_eq, List.flatten_append, List.flatten_singleton, ← joinedTail,
        List.take_of_length_le (h.resolve_left (not_le.mpr hmany))]
      exact List.filter_sublist
    · rw [← hsource]
      exact List.filter_sublist

/-- A long tail is cut. -/
theorem not_keeps {payload : Option Dict}
    (hmany : maxChunksPerEvent < (pieces strJson kind (payload.getD .empty)).length)
    (hlong : chunkMaxChars < (joinedTail strJson kind (payload.getD .empty)).length) :
    ¬ Keeps (sourceText strJson kind (payload.getD .empty)) (chunkPayload strJson kind payload) := by
  have hpos : 0 < maxChunksPerEvent := by decide
  have hne : pieces strJson kind (payload.getD .empty) ≠ [] := by
    intro hempty
    rw [hempty] at hmany
    exact absurd hmany (Nat.not_lt_zero _)
  have htail : EndsSolid (joinedTail strJson kind (payload.getD .empty)) := by
    refine endsSolid_intercalate ?_ fun piece hpiece ↦
      endsSolid_of_mem_pieces strJson kind _ (List.mem_of_mem_drop hpiece)
    rw [Ne, List.drop_eq_nil_iff]
    omega
  rw [Keeps, chunkPayload, map_toList_ofList, if_neg hne, if_pos hmany, solid_sourceText_eq,
    List.flatten_append, List.flatten_singleton]
  exact not_sublist_of_cut htail hlong

/-- **Chunking.**  The chunks of an event contain its text exactly when there are at most 200 pieces,
or when those from the 200th on fit into one chunk. -/
theorem chunkPayload_keeps_iff (strJson : PyJson → String) (kind : String) (payload : Option Dict) :
    Keeps (sourceText strJson kind (payload.getD .empty)) (chunkPayload strJson kind payload) ↔
      (pieces strJson kind (payload.getD .empty)).length ≤ maxChunksPerEvent ∨
        (joinedTail strJson kind (payload.getD .empty)).length ≤ chunkMaxChars := by
  refine ⟨fun h ↦ ?_, keeps_of_fits⟩
  by_contra hcut
  obtain ⟨hmany, hlong⟩ := not_or.mp hcut
  exact not_keeps (not_le.mp hmany) (not_le.mp hlong) h

end

/-! ## Samples -/

/-- A turn of a conversation. -/
def Sample.turn (content : String) : PyJson := .obj [("role", .str "user"), ("content", .str content)]

/-- A conversation. -/
def Sample.conversation (contents : List String) : Dict :=
  Table.empty.insert ("messages", .arr (contents.map Sample.turn))

theorem Sample.messages?_conversation {contents : List String} (h : contents ≠ []) :
    messages? (conversation contents) =
      some (contents.map fun content ↦ [("role", .str "user"), ("content", .str content)]) := by
  have hget : (conversation contents).get "messages" = .arr (contents.map turn) := rfl
  have hmap : contents.map turn ≠ [] := fun hnil ↦ h (List.map_eq_nil_iff.mp hnil)
  rw [messages?, hget]
  dsimp only
  rw [if_neg hmap]
  clear hget hmap h
  induction contents with
  | nil => rfl
  | cons content contents ih =>
    rw [List.map_cons, List.mapM_cons, ih]
    rfl

/-- The pieces of a conversation that repeats one turn. -/
theorem Sample.pieces_conversation {content : String} {n : Nat} (hn : n ≠ 0) {text : List Char}
    (htext : text = "user: ".toList ++ content.toList) (hstrip : strip isSpace text = text)
    (hne : text ≠ []) (kind : String) :
    pieces (Json.pyStr fun _ ↦ true) kind (conversation (List.replicate n content)) =
      List.replicate n text := by
  have hturn : messageText (Json.pyStr fun _ ↦ true)
      [("role", .str "user"), ("content", .str content)] = text := by
    have hrole : orJson (entryGet [("role", .str "user"), ("content", .str content)] "role")
        (orJson (entryGet [("role", .str "user"), ("content", .str content)] "speaker")
          (.str "?")) = .str "user" := rfl
    have hcontent : (Json.pyStr (fun _ ↦ true)
        (orJson (entryGet [("role", .str "user"), ("content", .str content)] "content")
        (orJson (entryGet [("role", .str "user"), ("content", .str content)] "text")
          (.str "")))) = content := by
      have hget : entryGet [("role", .str "user"), ("content", .str content)] "content" =
          .str content := rfl
      have hnone : entryGet [("role", .str "user"), ("content", .str content)] "text" = .null := rfl
      rw [hget, hnone]
      by_cases hempty : content = ""
      · rw [hempty]
        rfl
      · rw [orJson, if_pos (by simpa [isTruthy] using hempty), Json.pyStr_str]
    rw [messageText, hrole, hcontent, Json.pyStr_str, ← hstrip, htext]
    rfl
  have hcontents : List.replicate n content ≠ [] := by simpa using hn
  rw [pieces, messages?_conversation hcontents]
  simp only [List.map_replicate, hturn, List.filter_replicate_of_pos, hne, hstrip, ne_eq,
    not_false_eq_true, decide_true]

/-- A turn that fills a chunk. -/
def Sample.longTurn : String := String.ofList (List.replicate 1600 'a')

/-- The end of a conversation of 201 long turns is lost. -/
theorem chunkPayload_loses_tail :
    ¬ Keeps (sourceText (Json.pyStr fun _ ↦ true) "chat"
        (Sample.conversation (List.replicate 201 Sample.longTurn)))
      (chunkPayload (Json.pyStr fun _ ↦ true) "chat"
        (some (Sample.conversation (List.replicate 201 Sample.longTurn)))) := by
  have hcontent : Sample.longTurn.toList = List.replicate 1600 'a' := String.toList_ofList
  have hpieces := Sample.pieces_conversation (n := 201) (by decide)
    (congrArg ("user: ".toList ++ ·) hcontent.symm) (by decide +kernel) (by decide) "chat"
  have hlength : ("user: ".toList ++ List.replicate 1600 'a').length = 1606 := by
    rw [List.length_append, List.length_replicate]
    rfl
  have hmany : maxChunksPerEvent < (pieces (Json.pyStr fun _ ↦ true) "chat"
      (Sample.conversation (List.replicate 201 Sample.longTurn))).length := by
    rw [hpieces, List.length_replicate]
    decide
  have hlong : chunkMaxChars < (joinedTail (Json.pyStr fun _ ↦ true) "chat"
      (Sample.conversation (List.replicate 201 Sample.longTurn))).length := by
    rw [joinedTail, hpieces, List.drop_replicate]
    generalize "user: ".toList ++ List.replicate 1600 'a' = text at hlength
    have htwo : List.replicate (201 - (maxChunksPerEvent - 1)) text = [text, text] := rfl
    rw [htwo, List.intercalate_cons_cons, List.length_append, List.length_append, hlength]
    exact Nat.lt_of_lt_of_le (by decide) (Nat.le_add_right _ _)
  exact @not_keeps _ _ (some _) hmany hlong

end Haki
