import Haki.Context.Decided
import Haki.Properties.Rendering
import Mathlib.Tactic.Ring

/-!
# The budget

What a packet costs is the sum of its lines, within the budget; what the block
adds is the paragraphs of instructions and the delimiters.  The paragraph about
a degraded status is outside: `overhead_tokens` does not charge it.
-/

namespace Haki

open Data

/-! ## Paragraphs -/

/-- The paragraphs of instructions of a block. -/
def Sdk.instructionParagraphs : List String :=
  [Sdk.factsParagraph, Sdk.contestedParagraph, Sdk.episodesParagraph]

/-- The fixed paragraphs of a block: the instructions, and the paragraph about the status. -/
def Sdk.fixedParagraphs : List String :=
  Sdk.statusParagraph ContextStatus.degraded.text :: Sdk.instructionParagraphs

/-- What the lines of a block that are one of the paragraphs cost. -/
def paragraphsCost (paragraphs lines : List String) : Nat :=
  ((lines.filter (· ∈ paragraphs)).map estimateProseTokens).sum

/-- What the delimiters of a packet with items cost. -/
def delimitersCost (packet : ContextPacket) : Nat :=
  if packet.facts.isEmpty && packet.episodes.isEmpty then 0 else estimateProseTokens wrapper

section

variable {paragraphs : List String}

@[simp] theorem paragraphsCost_nil : paragraphsCost paragraphs [] = 0 := rfl

@[simp] theorem paragraphsCost_append (lines lines' : List String) :
    paragraphsCost paragraphs (lines ++ lines') =
      paragraphsCost paragraphs lines + paragraphsCost paragraphs lines' := by
  simp [paragraphsCost]

theorem paragraphsCost_singleton (line : String) :
    paragraphsCost paragraphs [line] = if line ∈ paragraphs then estimateProseTokens line else 0 := by
  by_cases h : line ∈ paragraphs
  · simp [paragraphsCost, h]
  · simp [paragraphsCost, h]

theorem paragraphsCost_singleton_of_mem {line : String} (h : line ∈ paragraphs) :
    paragraphsCost paragraphs [line] = estimateProseTokens line := by
  rw [paragraphsCost_singleton, if_pos h]

theorem paragraphsCost_eq_zero {lines : List String} (h : ∀ line ∈ lines, line ∉ paragraphs) :
    paragraphsCost paragraphs lines = 0 := by
  rw [paragraphsCost, List.filter_eq_nil_iff.mpr fun line hline ↦ by simpa using h line hline]
  rfl

theorem head?_append_of_eq {a b : String} {c : Char} (h : a.toList.head? = some c) :
    (a ++ b).toList.head? = some c := by
  rw [String.toList_append, List.head?_append, h]
  rfl

theorem head?_statusParagraph (status : String) :
    (Sdk.statusParagraph status).toList.head? = some 'M' := by
  delta Sdk.statusParagraph
  iterate 4 apply head?_append_of_eq
  decide

theorem head?_factsParagraph : Sdk.factsParagraph.toList.head? = some 'V' := by
  delta Sdk.factsParagraph
  iterate 19 apply head?_append_of_eq
  decide

theorem head?_contestedParagraph : Sdk.contestedParagraph.toList.head? = some 'O' := by
  delta Sdk.contestedParagraph
  iterate 17 apply head?_append_of_eq
  decide

theorem head?_episodesParagraph : Sdk.episodesParagraph.toList.head? = some 'D' := by
  delta Sdk.episodesParagraph
  iterate 7 apply head?_append_of_eq
  decide

/-- One more paragraph is paid for as often as it is there. -/
theorem paragraphsCost_cons {paragraph : String} (h : paragraph ∉ paragraphs) (lines : List String) :
    paragraphsCost (paragraph :: paragraphs) lines =
      paragraphsCost paragraphs lines + lines.count paragraph * estimateProseTokens paragraph := by
  induction lines with
  | nil => rw [paragraphsCost_nil, paragraphsCost_nil, List.count_nil, Nat.zero_mul]
  | cons line lines ih =>
    rw [← List.singleton_append (l := lines), paragraphsCost_append, paragraphsCost_append, ih,
      List.count_append, List.count_singleton, paragraphsCost_singleton, paragraphsCost_singleton]
    by_cases hline : line = paragraph
    · rw [hline, if_pos List.mem_cons_self, if_neg h, if_pos (beq_self_eq_true _)]
      ring
    · have hmem : line ∈ paragraph :: paragraphs ↔ line ∈ paragraphs := by simp [hline]
      have hbeq : (line == paragraph) = false := by simpa using hline
      simp only [hmem, hbeq, Bool.false_eq_true, if_false]
      ring

/-- A paragraph of instructions starts with a capital letter. -/
theorem head?_of_mem_instructionParagraphs {line : String}
    (h : line ∈ Sdk.instructionParagraphs) :
    line.toList.head? ∈ [some 'V', some 'O', some 'D'] := by
  rcases List.mem_cons.mp h with rfl | h
  · rw [head?_factsParagraph]
    decide
  · rcases List.mem_cons.mp h with rfl | h
    · rw [head?_contestedParagraph]
      decide
    · rw [List.mem_singleton.mp h, head?_episodesParagraph]
      decide

theorem notMem_instructionParagraphs {line : String} {c : Char} (hline : line.toList.head? = some c)
    (hc : some c ∉ [some 'V', some 'O', some 'D']) : line ∉ Sdk.instructionParagraphs :=
  fun h ↦ hc (hline ▸ head?_of_mem_instructionParagraphs h)

theorem head?_renderFact (printer : Printer) (item : PacketFact) :
    (printer.renderFact item).toList.head? = some '-' := by
  simp [Printer.renderFact]

theorem head?_renderEpisode (item : PacketEpisode) :
    (renderEpisode item).toList.head? = some '-' := by
  simp [renderEpisode]

/-- The instructions of a block, item by item. -/
theorem paragraphsCost_blockLines (status : Option String) (contested : Bool)
    {facts episodes : List String} (warnings : List String)
    (hfacts : ∀ line ∈ facts, line.toList.head? = some '-')
    (hepisodes : ∀ line ∈ episodes, line.toList.head? = some '-') :
    paragraphsCost Sdk.instructionParagraphs
        (Sdk.blockLines status contested facts episodes warnings) =
      (if facts = [] ∧ episodes = [] then 0 else estimateProseTokens Sdk.factsParagraph) +
      (if contested then estimateProseTokens Sdk.contestedParagraph else 0) +
      (if episodes = [] then 0 else estimateProseTokens Sdk.episodesParagraph) := by
  have hfactsMem : Sdk.factsParagraph ∈ Sdk.instructionParagraphs := .head _
  have hcontestedMem : Sdk.contestedParagraph ∈ Sdk.instructionParagraphs := .tail _ (.head _)
  have hepisodesMem : Sdk.episodesParagraph ∈ Sdk.instructionParagraphs :=
    .tail _ (.tail _ (.head _))
  have hitems {c : Char} (hc : some c ∉ [some 'V', some 'O', some 'D']) {items : List String}
      (h : ∀ line ∈ items, line.toList.head? = some c) :
      paragraphsCost Sdk.instructionParagraphs items = 0 :=
    paragraphsCost_eq_zero fun line hline ↦ notMem_instructionParagraphs (h line hline) hc
  have hdelimiter (line : String) (h : line.toList.head? = some '<') :
      paragraphsCost Sdk.instructionParagraphs [line] = 0 :=
    hitems (by decide) fun other hother ↦ List.mem_singleton.mp hother ▸ h
  have hstatus : paragraphsCost Sdk.instructionParagraphs
      (status.map Sdk.statusParagraph).toList = 0 := by
    refine hitems (c := 'M') (by decide) fun line hline ↦ ?_
    obtain ⟨text, -, rfl⟩ := Option.map_eq_some_iff.mp (Option.mem_toList.mp hline)
    exact head?_statusParagraph text
  have hwarnings : paragraphsCost Sdk.instructionParagraphs (warnings.map Sdk.warningLine) = 0 := by
    refine hitems (c := '!') (by decide) fun line hline ↦ ?_
    obtain ⟨warning, -, rfl⟩ := List.mem_map.mp hline
    exact head?_append_of_eq rfl
  have hfactsParagraph : paragraphsCost Sdk.instructionParagraphs
      (if facts = [] ∧ episodes = [] then [] else [Sdk.factsParagraph]) =
        if facts = [] ∧ episodes = [] then 0 else estimateProseTokens Sdk.factsParagraph := by
    by_cases hempty : facts = [] ∧ episodes = []
    · rw [if_pos hempty, if_pos hempty, paragraphsCost_nil]
    · rw [if_neg hempty, if_neg hempty, paragraphsCost_singleton_of_mem hfactsMem]
  have hcontestedParagraph : paragraphsCost Sdk.instructionParagraphs
      (if contested = true then [Sdk.contestedParagraph] else []) =
        if contested then estimateProseTokens Sdk.contestedParagraph else 0 := by
    by_cases hcontested : contested = true
    · rw [if_pos hcontested, if_pos hcontested, paragraphsCost_singleton_of_mem hcontestedMem]
    · rw [if_neg hcontested, if_neg hcontested, paragraphsCost_nil]
  have hepisodesParagraph : paragraphsCost Sdk.instructionParagraphs
      (if episodes = [] then [] else Sdk.episodesParagraph :: episodes) =
        if episodes = [] then 0 else estimateProseTokens Sdk.episodesParagraph := by
    by_cases hempty : episodes = []
    · rw [if_pos hempty, if_pos hempty, paragraphsCost_nil]
    · rw [if_neg hempty, if_neg hempty, ← List.singleton_append, paragraphsCost_append,
        hitems (by decide) hepisodes, paragraphsCost_singleton_of_mem hepisodesMem, Nat.add_zero]
  have hopen : paragraphsCost Sdk.instructionParagraphs ["<haki_memory>"] = 0 :=
    hdelimiter _ (by decide)
  have hclose : paragraphsCost Sdk.instructionParagraphs [closingTag] = 0 :=
    hdelimiter _ (by decide)
  rw [Sdk.blockLines, ← List.singleton_append]
  simp only [paragraphsCost_append, hopen, hclose, hstatus, hwarnings, hitems (by decide) hfacts,
    hfactsParagraph, hcontestedParagraph, hepisodesParagraph]
  -- the kernel would evaluate the costs of the texts in a sum
  generalize estimateProseTokens Sdk.factsParagraph = a
  generalize estimateProseTokens Sdk.contestedParagraph = b
  generalize estimateProseTokens Sdk.episodesParagraph = c
  omega

end

/-! ## The texts of the server and of the SDK -/

/-- The characters of a text that ends with a literal. -/
theorem toList_append_ofList {a : String} {l m : List Char} (h : a.toList = l) :
    (a ++ String.ofList m).toList = l ++ m := by
  rw [String.toList_append, String.toList_ofList, h]

theorem header_eq : header = Sdk.factsParagraph := by
  apply String.toList_inj.mp
  apply Eq.trans
  · delta header
    iterate 15 apply toList_append_ofList
    apply String.toList_ofList
  · apply Eq.symm
    apply Eq.trans
    · delta Sdk.factsParagraph
      iterate 19 apply toList_append_ofList
      apply String.toList_ofList
    · decide +kernel

theorem contestedInstructions_eq : contestedInstructions = Sdk.contestedParagraph := by
  apply String.toList_inj.mp
  apply Eq.trans
  · delta contestedInstructions
    iterate 12 apply toList_append_ofList
    apply String.toList_ofList
  · apply Eq.symm
    apply Eq.trans
    · delta Sdk.contestedParagraph
      iterate 17 apply toList_append_ofList
      apply String.toList_ofList
    · decide +kernel

theorem episodesHeader_eq : episodesHeader = Sdk.episodesParagraph := by
  apply String.toList_inj.mp
  apply Eq.trans
  · delta episodesHeader
    iterate 6 apply toList_append_ofList
    apply String.toList_ofList
  · apply Eq.symm
    apply Eq.trans
    · delta Sdk.episodesParagraph
      iterate 7 apply toList_append_ofList
      apply String.toList_ofList
    · decide +kernel

/-! ## Packets -/

section

variable {reader : Reader} {store : Store} {request : ContextRequest} {built : BuiltContext}

theorem ne_empty_of_mem_refs {letter ref : String} {n : Nat} (hletter : letter ≠ "")
    (h : ref ∈ refs letter n) : ref ≠ "" := by
  obtain ⟨i, -, rfl⟩ := List.mem_map.mp h
  intro hempty
  exact hletter (String.append_eq_empty_iff.mp hempty).1

/-- The line of a fact starts with its reference. -/
theorem renderFact_eq_ref (printer : Printer) {item : PacketFact} (h : item.ref ≠ "") :
    ∃ rest, printer.renderFact item = "- [" ++ item.ref ++ "] " ++ rest := by
  refine ⟨sanitizeInjection item.predicate ++ ": " ++
    sanitizeInjection (printer.strJson (.obj item.value.rows)) ++ " (valid from " ++
    factValidFrom item ++ ")" ++ printer.factMarker item, ?_⟩
  simp only [Printer.renderFact, orText, if_neg h, String.append_assoc]

/-- The line of an episode starts with its reference. -/
theorem renderEpisode_eq_ref {item : PacketEpisode} (h : item.ref ≠ "") :
    ∃ rest, renderEpisode item = "- [" ++ item.ref ++ "] " ++ rest := by
  refine ⟨"[" ++ withRelative (orText item.occurredAtShort
    (orText (some item.occurredAt) "unknown date")) item.occurredAtRelative ++ "] " ++
    sanitizeInjection item.kind ++ ": " ++ sanitizeInjection item.excerpt ++ episodeMarker item, ?_⟩
  have hbracket : "] [" = "] " ++ "[" := by decide
  simp only [renderEpisode, orText, if_neg h, hbracket, String.append_assoc]

/-- What a call charges besides its lines. -/
theorem overheadTokens_eq (reader : Reader) (store : Store) (request : ContextRequest) :
    ∃ lines,
      reader.promptLines ((packetOf reader store request
        (packedContext reader store request)).object reader.toPrinter) = some lines ∧
      overheadTokens (packedContext reader store request) =
        paragraphsCost Sdk.instructionParagraphs lines +
          delimitersCost (packetOf reader store request (packedContext reader store request)) := by
  set p := packedContext reader store request with hp
  have hbalanced := packedContext_balanced reader store request
  have hpaid : p.PaidWhenContested := pack_paidWhenContested _ _ _
  have hcontested : (p.facts.any fun printed ↦ printed.item.conflictId.isSome) =
      p.contestedCharged := by
    rw [Bool.eq_iff_iff, List.any_eq_true]
    exact hpaid.symm
  refine ⟨_, promptLines_object (packetOf_lined reader store request), ?_⟩
  rw [paragraphsCost_blockLines]
  · simp only [overheadTokens, delimitersCost, packetOf, header_eq, contestedInstructions_eq,
      episodesHeader_eq, hcontested, List.map_eq_nil_iff, List.isEmpty_iff, Bool.and_eq_true]
    by_cases hempty : p.facts = [] ∧ p.episodes = []
    · have huncharged : p.contestedCharged = false := by
        rw [← hcontested, hempty.1]
        rfl
      rw [if_pos hempty, if_pos hempty, if_pos hempty, if_pos hempty.2, huncharged]
      rfl
    · rw [if_neg hempty, if_neg hempty, if_neg hempty]
      omega
  · intro line hline
    obtain ⟨printed, hmem, rfl⟩ := List.mem_map.mp hline
    rw [hbalanced.factLines printed hmem]
    exact head?_renderFact _ _
  · intro line hline
    obtain ⟨printed, hmem, rfl⟩ := List.mem_map.mp hline
    rw [hbalanced.episodeLines printed hmem]
    exact head?_renderEpisode _

/-- **The budget.**  When every open conflict set has at most one active member: a packet costs what
its lines cost, and no more than the budget; its facts and episodes are referred to as `F1`, `F2`, …
and `E1`, `E2`, … in order, each on its own line; no fact is packed twice; two episodes or more cost
at most half of the budget; and the overhead is the paragraphs of instructions of its block and, if
it has an item, the delimiters. -/
theorem packet_budget (hactive : AtMostOneActive store.ledger request.scope)
    (hbuilt : buildContext reader store request = .ok built) :
    (built.tokenCount = printedCost built.packet.facts + printedCost built.packet.episodes ∧
      (built.tokenCount : Int) ≤ request.budgetTokens) ∧
    (built.packet.facts.map (·.item.ref) = refs "F" built.packet.facts.length ∧
      built.packet.episodes.map (·.item.ref) = refs "E" built.packet.episodes.length) ∧
    ((∀ printed ∈ built.packet.facts, ∃ rest,
        printed.line = "- [" ++ printed.item.ref ++ "] " ++ rest) ∧
      ∀ printed ∈ built.packet.episodes, ∃ rest,
        printed.line = "- [" ++ printed.item.ref ++ "] " ++ rest) ∧
    (built.packet.facts.map (·.item.id)).Nodup ∧
    (2 ≤ built.packet.episodes.length →
      2 * (printedCost built.packet.episodes : Int) ≤ request.budgetTokens) ∧
    ∃ lines, reader.promptLines (built.packet.object reader.toPrinter) = some lines ∧
      built.packet.overheadTokens =
        paragraphsCost Sdk.instructionParagraphs lines + delimitersCost built.packet := by
  have hbudget := (buildContext_eq_ok hbuilt).1
  have hnat : ((packingCall reader store request).budgetTokens : Int) = request.budgetTokens :=
    Int.toNat_of_nonneg hbudget.le
  obtain rfl := Except.ok.inj ((buildContext_eq reader store request hbudget).symm.trans hbuilt)
  have hbalanced := packedContext_balanced reader store request
  refine ⟨⟨hbalanced.tokens, ?_⟩, ⟨hbalanced.factRefs, hbalanced.episodeRefs⟩,
    ⟨fun printed hmem ↦ ?_, fun printed hmem ↦ ?_⟩, packedContext_nodup hactive, fun hlength ↦ ?_,
    overheadTokens_eq reader store request⟩
  · rw [← hnat]
    exact_mod_cast hbalanced.within
  · have href : printed.item.ref ∈ refs "F" (packedContext reader store request).facts.length := by
      rw [← hbalanced.factRefs]
      exact List.mem_map_of_mem hmem
    rw [hbalanced.factLines printed hmem]
    exact renderFact_eq_ref _ (ne_empty_of_mem_refs (by decide) href)
  · have href : printed.item.ref ∈
        refs "E" (packedContext reader store request).episodes.length := by
      rw [← hbalanced.episodeRefs]
      exact List.mem_map_of_mem hmem
    rw [hbalanced.episodeLines printed hmem]
    exact renderEpisode_eq_ref (ne_empty_of_mem_refs (by decide) href)
  · have hceiling := hbalanced.ceiling hlength
    rw [hbalanced.episodeTokens] at hceiling
    rw [← hnat]
    exact_mod_cast hceiling

/-- The paragraph about the status is in the block of a packet with a warning, and not paid for. -/
theorem overheadTokens_lt {reader : Reader} (hstr : reader.StrOfStr) (store : Store)
    {request : ContextRequest} (hwarnings : request.extraWarnings ≠ []) :
    ∃ lines,
      reader.promptLines ((packetOf reader store request
        (packedContext reader store request)).object reader.toPrinter) = some lines ∧
      overheadTokens (packedContext reader store request) <
        paragraphsCost Sdk.fixedParagraphs lines +
          delimitersCost (packetOf reader store request (packedContext reader store request)) := by
  obtain ⟨lines, hlines, hoverhead⟩ := overheadTokens_eq reader store request
  refine ⟨lines, hlines, ?_⟩
  set packet := packetOf reader store request (packedContext reader store request)
  have hdegraded : packet.status = .degraded := by
    refine if_neg fun hempty ↦ hwarnings ?_
    exact (List.append_eq_nil_iff.mp hempty).2
  have hmem : Sdk.statusParagraph ContextStatus.degraded.text ∈ lines := by
    obtain rfl := Option.some.inj
      ((promptLines_object (packetOf_lined reader store request)).symm.trans hlines)
    rw [Sdk.blockLines, hdegraded, if_neg (by decide), hstr, Option.map_some]
    simp
  have hnot : Sdk.statusParagraph ContextStatus.degraded.text ∉ Sdk.instructionParagraphs :=
    notMem_instructionParagraphs (head?_statusParagraph _) (by decide)
  have hcount : 0 < lines.count (Sdk.statusParagraph ContextStatus.degraded.text) :=
    List.count_pos_iff.mpr hmem
  have hcost : 0 < estimateProseTokens (Sdk.statusParagraph ContextStatus.degraded.text) :=
    lt_of_lt_of_le Nat.one_pos (le_max_left _ _)
  rw [Sdk.fixedParagraphs, paragraphsCost_cons hnot, hoverhead]
  have := Nat.mul_pos hcount hcost
  omega

end

/-- A call that passes a warning on. -/
def Sample.warned : ContextRequest := { Sample.request with extraWarnings := ["slow"] }

theorem Sample.warned_ne_nil : Sample.warned.extraWarnings ≠ [] := by decide

/-- The overhead of a degraded packet is not what all fixed paragraphs of its block cost. -/
theorem overhead_omits_status :
    ∃ built lines,
      AtMostOneActive Sample.lyon Sample.scope ∧
      buildContext .python (Sample.store Sample.lyon) Sample.warned = .ok built ∧
      Reader.python.promptLines (built.packet.object Reader.python.toPrinter) = some lines ∧
      built.packet.overheadTokens ≠
        paragraphsCost Sdk.fixedParagraphs lines + delimitersCost built.packet := by
  obtain ⟨lines, hlines, hlt⟩ := overheadTokens_lt Reader.python_strOfStr
    (Sample.store Sample.lyon) Sample.warned_ne_nil
  exact ⟨_, lines, by decide +kernel, buildContext_eq _ _ _ (by decide), hlines, hlt.ne⟩

/-- The budget of a call about a contradicted fact, which is served with its sibling. -/
theorem packet_budget_disputed :
    ∃ built, buildContext .sample Sample.disputed Sample.request = .ok built ∧
      built.packet.facts.map (·.item.id) = [⟨1, 0⟩, ⟨2, 0⟩] ∧
      built.packet.facts.map (·.item.ref) = refs "F" 2 ∧
      (built.packet.facts.map (·.item.id)).Nodup ∧
      built.tokenCount = printedCost built.packet.facts + printedCost built.packet.episodes ∧
      (built.tokenCount : Int) ≤ 3000 := by
  have hbuilt := buildContext_eq .sample Sample.disputed Sample.request (by decide)
  have hserved := Sample.served_lyonOrNice
  rw [Sample.served, ← Sample.disputed, hbuilt] at hserved
  have hlength := congrArg List.length hserved
  rw [List.length_map] at hlength
  obtain ⟨⟨hcost, hwithin⟩, ⟨hrefs, -⟩, -, hnodup, -⟩ := packet_budget (by decide +kernel) hbuilt
  rw [hlength] at hrefs
  exact ⟨_, hbuilt, hserved, hrefs, hnodup, hcost, hwithin⟩

end Haki
