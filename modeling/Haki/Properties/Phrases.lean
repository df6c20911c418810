import Haki.Consolidator.Temporal

/-!
# What the phrases of a text name

Every match of `_COUNTED_RE` names a unit and an offset.  A match of
`_PHRASE_RE` does unless it is spelled with one of three letters outside of
ASCII: `re.IGNORECASE` takes them for `i` and `s`, and `str.lower` does not.
-/

namespace Haki

open Control Data

variable {py : Python} {text : List Char} {g : Groups Char}

/-! ## Spelling -/

/-- The letters `re.IGNORECASE` matches that `str.lower` does not turn into the ones they match:
a capital `i` with a dot, an `i` without one and a long `s`. -/
def oddLetters : List Char := ['\u0130', '\u0131', '\u017f']

/-- The characters of the phrases. -/
def phraseLetters : List Char := "abcdefghijklmnopqrstuvwxyz ".toList

/-- What a character of a phrase matches is that character in lower case, or it is odd and stays
so. -/
theorem lowerChar_of_ignoringCase {c d : Char} (hc : c ∈ phraseLetters) (h : ignoringCase c d) :
    (d ∉ oddLetters ∧ lowerChar d = [c]) ∨
      d ∈ oddLetters ∧ ∃ x ∈ lowerChar d, x ∉ phraseLetters := by
  have hall : phraseLetters.all (fun c ↦ (c :: c.toUpper :: alsoMatches c).all fun d ↦
      (d ∉ oddLetters ∧ lowerChar d = [c]) ∨
        d ∈ oddLetters ∧ (lowerChar d).any (· ∉ phraseLetters)) := by decide +kernel
  have hd : d ∈ c :: c.toUpper :: alsoMatches c := by
    have := of_decide_eq_true h
    rcases this with rfl | rfl | h
    · exact List.mem_cons_self
    · exact List.mem_cons_of_mem _ List.mem_cons_self
    · exact List.mem_cons_of_mem _ (List.mem_cons_of_mem _ h)
  have := of_decide_eq_true (List.all_eq_true.mp (List.all_eq_true.mp hall c hc) d hd)
  refine this.imp_right fun ⟨hodd, hany⟩ ↦ ⟨hodd, ?_⟩
  obtain ⟨x, hx, hnot⟩ := List.any_eq_true.mp hany
  exact ⟨x, hx, of_decide_eq_true hnot⟩

/-- A phrase without an odd letter is the phrase of the table in another case. -/
theorem lower_of_plain {key w : List Char} (hkey : ∀ c ∈ key, c ∈ phraseLetters)
    (h : List.Forall₂ (fun c d ↦ ignoringCase c d = true) key w)
    (hplain : ∀ d ∈ w, d ∉ oddLetters) :
    lower w = key := by
  induction h with
  | nil => rfl
  | @cons c d key w hcd _ ih =>
    obtain ⟨hc, hkey⟩ := List.forall_mem_cons.mp hkey
    obtain ⟨hd, hplain⟩ := List.forall_mem_cons.mp hplain
    have hlower : lowerChar d = [c] :=
      (lowerChar_of_ignoringCase hc hcd).elim And.right fun h ↦ absurd h.1 hd
    rw [lower, List.flatMap_cons, hlower, ← lower, ih hkey hplain, List.singleton_append]

/-- A phrase with an odd letter is none of the table. -/
theorem lower_of_odd {key w : List Char} (hkey : ∀ c ∈ key, c ∈ phraseLetters)
    (h : List.Forall₂ (fun c d ↦ ignoringCase c d = true) key w) {d : Char} (hd : d ∈ w)
    (hodd : d ∈ oddLetters) : ∃ x ∈ lower w, x ∉ phraseLetters := by
  obtain ⟨n, hn, rfl⟩ := List.getElem_of_mem hd
  have hlen : n < key.length := h.length_eq ▸ hn
  have hcd : ignoringCase key[n] w[n] = true := h.get hlen hn
  rcases lowerChar_of_ignoringCase (hkey _ (List.getElem_mem hlen)) hcd with h | ⟨-, x, hx, hnot⟩
  · exact absurd hodd h.1
  · exact ⟨x, List.mem_flatMap.mpr ⟨_, hd, hx⟩, hnot⟩

/-! ## Phrases of the table -/

theorem mem_phraseLetters {p : String × CalendarUnit × Int} (hp : p ∈ relativePhrases) :
    ∀ c ∈ p.1.toList, c ∈ phraseLetters := by
  have hall : relativePhrases.all fun p ↦ p.1.toList.all (· ∈ phraseLetters) := by decide +kernel
  intro c hc
  exact of_decide_eq_true (List.all_eq_true.mp (List.all_eq_true.mp hall p hp) c hc)

/-- A match of `_PHRASE_RE` is a phrase of the table, up to case. -/
theorem phraseRe_spec (h : g ∈ (phraseRe py).findAll text) :
    ∃ p ∈ relativePhrases,
      List.Forall₂ (fun c d ↦ ignoringCase c d = true) p.1.toList (g.text 1) := by
  obtain ⟨w, hread⟩ := Pattern.mem_findAll h
  rw [phraseRe] at hread
  -- the boundaries read nothing, and what is between them is the group
  cases hread with | seq hbefore hread =>
  cases hbefore
  cases hread with | seq hgroup hread =>
  cases hread with | seq hafter hend =>
  cases hafter
  cases hend
  cases hgroup with | group hword =>
  obtain ⟨a, ha, hword⟩ := hword.of_anyOf
  obtain ⟨key, hkey, rfl⟩ := List.mem_map.mp ha
  obtain ⟨p, hp, rfl⟩ := List.mem_map.mp ((List.mem_insertionSort _).mp hkey)
  obtain ⟨hall, rfl⟩ := hword.of_word
  refine ⟨p, hp, ?_⟩
  rw [List.forall₂_map_left_iff] at hall
  exact hall

/-- A phrase means something exactly when it is spelled without an odd letter. -/
theorem exists_phrasePair (h : g ∈ (phraseRe py).findAll text) :
    (∃ pair, phrasePair g = .ok pair) ↔ ∀ c ∈ g.text 1, c ∉ oddLetters := by
  obtain ⟨p, hp, hall⟩ := phraseRe_spec h
  constructor
  · rintro ⟨pair, hpair⟩ c hc hodd
    obtain ⟨x, hx, hnot⟩ := lower_of_odd (mem_phraseLetters hp) hall hc hodd
    obtain ⟨q, hq, heq⟩ : ∃ q ∈ relativePhrases, q.1 = String.ofList (lower (g.text 1)) := by
      obtain ⟨l₁, l₂, hsplit, -⟩ := List.lookup_eq_some_iff.mp (orDateError_eq_ok.mp hpair)
      exact ⟨_, hsplit ▸ List.mem_append_right l₁ List.mem_cons_self, rfl⟩
    refine hnot (mem_phraseLetters hq x ?_)
    rw [heq, String.toList_ofList]
    exact hx
  · intro hplain
    have hlower : lower (g.text 1) = p.1.toList :=
      lower_of_plain (mem_phraseLetters hp) hall hplain
    cases hlookup : relativePhrases.lookup p.1 with
    | none => exact absurd (List.lookup_eq_none_iff.mp hlookup p hp) (by simp)
    | some pair =>
      refine ⟨pair, orDateError_eq_ok.mpr ?_⟩
      rw [hlower, String.ofList_toList, hlookup]

/-! ## Counted phrases -/

theorem exists_intOf {ds : List Char} (hne : ds ≠ []) (hds : ∀ c ∈ ds, py.isDecimal c) :
    ∃ n, intOf py ds = .ok n := by
  rw [intOf, if_neg hne]
  have hfold (n : ℤ) (ds : List Char) (hds : ∀ c ∈ ds, py.isDecimal c) :
      ∃ m, ds.foldlM (fun n c ↦ orDateError .valueError
        ((py.decimal c).map fun d ↦ 10 * n + (d.val : ℤ))) n = .ok m := by
    induction ds generalizing n with
    | nil => exact ⟨n, rfl⟩
    | cons c ds ih =>
      obtain ⟨hc, hds⟩ := List.forall_mem_cons.mp hds
      obtain ⟨d, hd⟩ := Option.isSome_iff_exists.mp hc
      obtain ⟨m, hm⟩ := ih (10 * n + (d.val : ℤ)) hds
      exact ⟨m, by rw [List.foldlM_cons, hd]; exact hm⟩
  exact hfold 0 ds hds

section Counted

variable {n : ℕ} {w : List Char} {gs : Groups Char}

/-- Some digits, as they are captured. -/
theorem groups_digits (h : (Pattern.group n (.many py.isDecimal 1 (some 3))).Reads w gs) :
    gs = [(n, w)] ∧ w ≠ [] ∧ ∀ c ∈ w, py.isDecimal c := by
  cases h with | group hdigits =>
  cases hdigits with | many hds hleast =>
  exact ⟨rfl, List.ne_nil_of_length_pos hleast, hds⟩

/-- A unit captures nothing inside. -/
theorem groups_unit
    (h : (Pattern.group n (.anyOf (relativeUnits.map fun u ↦ literal u.1))).Reads w gs) :
    gs = [(n, w)] := by
  cases h with | group hunit =>
  obtain ⟨a, ha, hword⟩ := hunit.of_anyOf
  obtain ⟨u, -, rfl⟩ := List.mem_map.mp ha
  obtain ⟨-, rfl⟩ := hword.of_word
  rfl

theorem groups_plural (h : (Pattern.opt (literal "s")).Reads w gs) : gs = [] := by
  cases h with
  | some hword => exact hword.of_word.2
  | none => rfl

end Counted

/-- A match of `_COUNTED_RE` counts with digits. -/
theorem countedRe_spec (h : g ∈ (countedRe py).findAll text) :
    (g.text 1 ≠ [] ∧ ∀ c ∈ g.text 1, py.isDecimal c) ∨
      g.text 1 = [] ∧ g.text 3 ≠ [] ∧ ∀ c ∈ g.text 3, py.isDecimal c := by
  obtain ⟨w, hread⟩ := Pattern.mem_findAll h
  rw [countedRe] at hread
  cases hread with | seq hbefore hread =>
  cases hbefore
  cases hread with | seq hcounted hread =>
  cases hread with | seq hafter hend =>
  cases hafter
  cases hend
  cases hcounted with
  | left hpast =>
    cases hpast with | seq hdigits hpast =>
    cases hpast with | seq hblank hpast =>
    cases hpast with | seq hunit hpast =>
    cases hpast with | seq hplural hpast =>
    cases hpast with | seq hblank' hpast =>
    cases hpast with | seq hago hend =>
    cases hend
    cases hblank
    cases hblank'
    obtain ⟨rfl, hne, hds⟩ := groups_digits hdigits
    obtain rfl := groups_unit hunit
    obtain rfl := groups_plural hplural
    obtain ⟨-, rfl⟩ := hago.of_word
    exact .inl ⟨hne, hds⟩
  | right hfuture =>
    cases hfuture with | seq hin hfuture =>
    cases hfuture with | seq hblank hfuture =>
    cases hfuture with | seq hdigits hfuture =>
    cases hfuture with | seq hblank' hfuture =>
    cases hfuture with | seq hunit hfuture =>
    cases hfuture with | seq hplural hend =>
    cases hend
    cases hblank
    cases hblank'
    obtain ⟨rfl, hne, hds⟩ := groups_digits hdigits
    obtain rfl := groups_unit hunit
    obtain rfl := groups_plural hplural
    obtain ⟨-, rfl⟩ := hin.of_word
    exact .inr ⟨rfl, hne, hds⟩

/-- A counted phrase always means something. -/
theorem exists_countedPair (h : g ∈ (countedRe py).findAll text) :
    ∃ pair, countedPair py g = .ok pair := by
  rcases countedRe_spec h with ⟨hne, hds⟩ | ⟨hnil, hne, hds⟩
  · obtain ⟨n, hn⟩ := exists_intOf hne hds
    exact ⟨_, by rw [countedPair, if_pos hne, hn]; rfl⟩
  · obtain ⟨n, hn⟩ := exists_intOf hne hds
    exact ⟨_, by rw [countedPair, if_neg (not_not.mpr hnil), hn]; rfl⟩

end Haki
