import Haki.Context.Fts

/-!
# The lexical query is the OR of its lexemes

What PostgreSQL reads is what `lexemes_to_or_tsquery` was given: one lexeme for
each, in order, whatever characters they are made of.
-/

namespace Haki

open Data

namespace Tsquery

/-- The OR of a lexeme and more of them. -/
def orOf (word : String) (words : List String) : Tsquery :=
  words.foldl (fun q w ↦ q.or (.lexeme w)) (.lexeme word)

/-- The tokens of lexemes with an operator between them. -/
def orTokens (words : List String) : List TsqueryToken :=
  [TsqueryToken.or].intercalate (words.map fun w ↦ [.lexeme w])

/-- Every further lexeme is another disjunct. -/
theorem foldlM_orTokens (p : Pending) (outer : List Pending) (hconj : p.conjuncts = none)
    (hnots : p.nots = 0) (word : String) (words : List String) :
    ∃ p' q, (orTokens (word :: words)).foldlM Reader.step (.before p outer) =
        some (.after p' q outer) ∧
      p'.all q = words.foldl (fun q w ↦ q.or (.lexeme w)) (p.all (.lexeme word)) := by
  have hword : Reader.step (.before p outer) (.lexeme word) =
      some (.after p (.lexeme word) outer) := by
    rw [Reader.step, Pending.operand, hnots]
    rfl
  induction words generalizing p word with
  | nil => exact ⟨p, .lexeme word, by simp [orTokens, hword], rfl⟩
  | cons word' words ih =>
    let next : Pending := { disjuncts := some (p.all (.lexeme word)) }
    obtain ⟨p', q, hfold, hall⟩ := ih next rfl rfl word' rfl
    refine ⟨p', q, ?_, hall⟩
    rw [orTokens, List.map_cons, List.map_cons, List.intercalate_cons_cons, List.append_assoc,
      List.singleton_append, List.singleton_append, List.foldlM_cons, hword]
    exact hfold

theorem ofTokens_orTokens (word : String) (words : List String) :
    ofTokens (orTokens (word :: words)) = some (orOf word words) := by
  obtain ⟨p, q, hfold, hall⟩ := foldlM_orTokens {} [] rfl rfl word words
  rw [ofTokens, hfold]
  exact congrArg some hall

end Tsquery

/-! ## The text -/

theorem tsqueryEscapes_eq (c : Char) : tsqueryEscapes c = tsqueryQuoting.double c := by
  unfold tsqueryEscapes Quoting.double
  by_cases hquote : c = apostrophe
  · subst hquote
    rfl
  · by_cases hback : c = '\\'
    · subst hback
      rfl
    · have : c ∉ tsqueryQuoting.doubled := by
        simp [Quoting.doubled, tsqueryQuoting, hquote, hback]
      rw [if_neg hquote, if_neg hback, if_neg this]

/-- The text is made of quoted words. -/
theorem toList_lexemesToOrTsquery {lexemes : List String} (h : lexemes ≠ []) :
    ∃ text, lexemesToOrTsquery lexemes = some text ∧
      text.toList = [' ', '|', ' '].intercalate ((lexemes.map String.toList).map
        tsqueryQuoting.quoted) := by
  refine ⟨_, if_neg h, ?_⟩
  rw [String.toList_intercalate, List.map_map, List.map_map]
  refine congrArg _ (List.map_congr_left fun lexeme _ ↦ ?_)
  simp only [Function.comp_apply, String.toList_append, String.toList_ofList, Quoting.quoted,
    funext tsqueryEscapes_eq]
  rfl

/-- What is between two lexemes. -/
theorem read_or (rest : List Char) : tsqueryQuoting.read .outside ([' ', '|', ' '] ++ rest) =
    (tsqueryQuoting.read .outside rest).map fun us ↦ [.or] ++ us := by
  have hblank : ' ' ≠ tsqueryQuoting.quote := by decide
  have hor : '|' ≠ tsqueryQuoting.quote := by decide
  simp only [List.cons_append, List.nil_append]
  rw [Quoting.read_outside_cons hblank rfl, Quoting.read_outside_cons hor rfl,
    Quoting.read_outside_cons hblank rfl]
  cases tsqueryQuoting.read .outside rest <;> rfl

/-- **Round trip.**  PostgreSQL reads the text of a list of lexemes as their OR. -/
theorem parse_lexemesToOrTsquery (lexeme : String) (lexemes : List String)
    (h : ∀ word ∈ lexeme :: lexemes, word ≠ "") :
    (lexemesToOrTsquery (lexeme :: lexemes)).bind Tsquery.parse =
      some (Tsquery.orOf lexeme lexemes) := by
  obtain ⟨text, htext, hlist⟩ := toList_lexemesToOrTsquery (List.cons_ne_nil lexeme lexemes)
  have hwords : ∀ w ∈ (lexeme :: lexemes).map String.toList,
      tsqueryQuoting.word w = some (.lexeme (String.ofList w)) := by
    intro w hw
    obtain ⟨word, hword, rfl⟩ := List.mem_map.mp hw
    exact if_neg fun hnil ↦ h word hword (String.toList_eq_nil_iff.mp hnil)
  have hread := Quoting.read_intercalate read_or ⟨' ', rfl, by decide⟩ hwords
  rw [htext, Option.bind_some, Tsquery.parse, hlist, hread, List.map_map, Option.bind_some,
    ← Tsquery.ofTokens_orTokens, Tsquery.orTokens]
  simp only [Function.comp_def, String.ofList_toList]

/-- Lexemes that end in a backslash and in a quote, and one that looks like an operator. -/
theorem parse_awkward :
    (lexemesToOrTsquery ["a\\", "b'", "' | 'c"]).bind Tsquery.parse =
      some (Tsquery.orOf "a\\" ["b'", "' | 'c"]) :=
  parse_lexemesToOrTsquery _ _ (by decide)

end Haki
