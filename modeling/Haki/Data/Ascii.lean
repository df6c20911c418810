import Haki.Data.Canonical

/-!
# `ensure_ascii`

Unless told otherwise `json.dumps` writes a character outside of ASCII as the
`\u` escapes of its UTF-16 units.  The texts of two documents are not confused
by that: a text is a row of units, and each unit can be read back.
-/

namespace Haki.Data

/-- The escape of a UTF-16 unit. -/
def unicodeEscape (n : Nat) : List Char :=
  ['\\', 'u', Nat.digitChar (n / 4096), Nat.digitChar (n / 256 % 16), Nat.digitChar (n / 16 % 16),
    Nat.digitChar (n % 16)]

/-- A character of a text under `ensure_ascii=True`. -/
def asciiChar (c : Char) : List Char :=
  if c.toNat < 127 then [c]
  else if c.toNat < 65536 then unicodeEscape c.toNat
  else unicodeEscape (55296 + (c.toNat - 65536) / 1024) ++
    unicodeEscape (56320 + (c.toNat - 65536) % 1024)

/-- The text `json.dumps` writes under `ensure_ascii=True`, from the one it writes without. -/
def ensureAscii (text : String) : String := String.ofList (text.toList.flatMap asciiChar)

/-! ## Reading a unit -/

/-- The number of four hexadecimal digits. -/
def hexNumber (a b c d : Char) : Nat :=
  ((hexValue a * 16 + hexValue b) * 16 + hexValue c) * 16 + hexValue d

theorem hexNumber_digits {n : Nat} (h : n < 65536) :
    hexNumber (Nat.digitChar (n / 4096)) (Nat.digitChar (n / 256 % 16))
      (Nat.digitChar (n / 16 % 16)) (Nat.digitChar (n % 16)) = n := by
  rw [hexNumber, hexValue_digitChar (by omega), hexValue_digitChar (by omega),
    hexValue_digitChar (by omega), hexValue_digitChar (by omega)]
  omega

/-- A character that is no backslash, or an escape. -/
def IsUnit (u : List Char) : Prop := (∃ c, c ≠ '\\' ∧ u = [c]) ∨ ∃ c, u = (escapeChar c).toList

/-- Read one unit of a text in ASCII. -/
def readUnit : List Char → Option (List Char × List Char)
  | '\\' :: 'u' :: a :: b :: c :: d :: x =>
    if hexNumber a b c d < 127 then some (['\\', 'u', a, b, c, d], x)
    else if 55296 ≤ hexNumber a b c d ∧ hexNumber a b c d < 56320 then
      match x with
      | _ :: _ :: e :: f :: g :: h :: y =>
        some ([Char.ofNat (65536 + (hexNumber a b c d - 55296) * 1024 +
          (hexNumber e f g h - 56320))], y)
      | _ => none
    else some ([Char.ofNat (hexNumber a b c d)], x)
  | '\\' :: c :: x => some (['\\', c], x)
  | c :: x => some ([c], x)
  | [] => none

theorem readUnit_plain {c : Char} (hc : c ≠ '\\') (x : List Char) :
    readUnit (asciiChar c ++ x) = some ([c], x) := by
  have hvalid := c.valid
  rw [asciiChar]
  split
  · rw [List.singleton_append, readUnit.eq_def]
    split <;> simp_all
  · next hascii =>
    split
    · next hbmp =>
      have hnumber := hexNumber_digits hbmp
      have hsurrogate : ¬ (55296 ≤ c.toNat ∧ c.toNat < 56320) := by
        rcases hvalid with h | h
        · exact fun hs ↦ absurd h (by simpa using hs.1)
        · exact fun hs ↦ by
            have : 57343 < c.toNat := h.1
            omega
      simp only [unicodeEscape, List.cons_append, List.nil_append, readUnit, hnumber, if_neg hascii,
        if_neg hsurrogate, Char.ofNat_toNat]
    · next hlarge =>
      have hbound : c.toNat < 1114112 := by
        rcases hvalid with h | h
        · exact lt_of_lt_of_le h (by decide)
        · exact h.2
      have hhigh := hexNumber_digits (n := 55296 + (c.toNat - 65536) / 1024) (by omega)
      have hlow := hexNumber_digits (n := 56320 + (c.toNat - 65536) % 1024) (by omega)
      have hsum : 65536 + (55296 + (c.toNat - 65536) / 1024 - 55296) * 1024 +
          (56320 + (c.toNat - 65536) % 1024 - 56320) = c.toNat := by omega
      simp only [unicodeEscape, List.cons_append, List.nil_append, readUnit, hhigh, hlow]
      rw [if_neg (by omega), if_pos (by omega), hsum, Char.ofNat_toNat]

theorem flatMap_asciiChar {l : List Char} (h : ∀ c ∈ l, c.toNat < 127) : l.flatMap asciiChar = l := by
  induction l with
  | nil => rfl
  | cons c l ih =>
    obtain ⟨hc, hl⟩ := List.forall_mem_cons.mp h
    rw [List.flatMap_cons, ih hl, asciiChar, if_pos hc, List.singleton_append]

theorem toNat_digitChar_lt {d : Nat} (h : d < 16) : (Nat.digitChar d).toNat < 127 := by
  revert d
  decide

/-- A unit can be read back. -/
theorem readUnit_flatMap {u : List Char} (hu : IsUnit u) (x : List Char) :
    readUnit (u.flatMap asciiChar ++ x) = some (u, x) := by
  rcases hu with ⟨c, hc, rfl⟩ | ⟨c, rfl⟩
  · rw [List.flatMap_singleton]
    exact readUnit_plain hc x
  · unfold escapeChar
    split
    · rfl
    split
    · rfl
    split
    · rfl
    split
    · rfl
    split
    · rfl
    split
    · rfl
    split
    · rfl
    split
    · next h =>
      have hhigh := toNat_digitChar_lt (d := c.toNat / 16) (by omega)
      have hlow := toNat_digitChar_lt (d := c.toNat % 16) (by omega)
      have hnumber : hexNumber '0' '0' (Nat.digitChar (c.toNat / 16))
          (Nat.digitChar (c.toNat % 16)) < 127 := by
        rw [hexNumber, hexValue_digitChar (by omega), hexValue_digitChar (by omega)]
        have : hexValue '0' = 0 := by decide
        omega
      have hunit : ("\\u00" ++ String.ofList [Nat.digitChar (c.toNat / 16),
          Nat.digitChar (c.toNat % 16)]).toList =
            ['\\', 'u', '0', '0', Nat.digitChar (c.toNat / 16), Nat.digitChar (c.toNat % 16)] := by
        rw [String.toList_append, String.toList_ofList, String.toList_ofList]
        rfl
      rw [hunit, flatMap_asciiChar (by simp [hhigh, hlow])]
      exact if_pos hnumber
    · next h _ _ _ _ _ _ =>
      rw [String.toList_ofList, List.flatMap_singleton]
      exact readUnit_plain ‹_› x

/-! ## Texts of units -/

/-- A text that is a row of units. -/
inductive Units : List Char → Prop where
  | nil : Units []
  | append {u t : List Char} (hu : IsUnit u) (ht : Units t) : Units (u ++ t)

namespace Units

theorem trans {s t : List Char} (hs : Units s) (ht : Units t) : Units (s ++ t) := by
  induction hs with
  | nil => exact ht
  | append hu _ ih =>
    rw [List.append_assoc]
    exact .append hu ih

theorem cons {c : Char} {t : List Char} (hc : c ≠ '\\') (ht : Units t) : Units (c :: t) :=
  .append (u := [c]) (.inl ⟨c, hc, rfl⟩) ht

/-- A text without backslashes. -/
theorem of_plain {t : List Char} (h : '\\' ∉ t) : Units t := by
  induction t with
  | nil => exact .nil
  | cons c t ih =>
    obtain ⟨hc, ht⟩ := not_or.mp (mt List.mem_cons.mpr h)
    exact (ih ht).cons (Ne.symm hc)

/-- **Writing in ASCII confuses no two texts.** -/
theorem flatMap_inj {s t : List Char} (hs : Units s) (ht : Units t)
    (h : s.flatMap asciiChar = t.flatMap asciiChar) : s = t := by
  induction hs generalizing t with
  | nil =>
    cases ht with
    | nil => rfl
    | @append u r hu ht =>
      have hread := readUnit_flatMap hu (r.flatMap asciiChar)
      rw [← List.flatMap_append, ← h] at hread
      cases hread
  | @append u r hu _ ih =>
    cases ht with
    | nil =>
      have hread := readUnit_flatMap hu (r.flatMap asciiChar)
      rw [← List.flatMap_append, h] at hread
      cases hread
    | append hv ht =>
      rw [List.flatMap_append, List.flatMap_append] at h
      have hread := readUnit_flatMap hu (r.flatMap asciiChar)
      rw [h, readUnit_flatMap hv] at hread
      obtain ⟨rfl, hrest⟩ := Prod.mk.inj (Option.some.inj hread)
      rw [ih ht hrest.symm]

/-- A bracketed list of such texts. -/
theorem closeWith {close : Char} {ls : List (List Char)} (hclose : close ≠ '\\')
    (h : ∀ l ∈ ls, Units l) : Units (closeWith close ls) := by
  have more {ls : List (List Char)} (h : ∀ l ∈ ls, Units l) : Units (closeMore close ls) := by
    induction ls with
    | nil => exact Units.nil.cons hclose
    | cons l ls ih =>
      obtain ⟨hl, hls⟩ := List.forall_mem_cons.mp h
      exact (hl.trans (ih hls)).cons (by decide)
  cases ls with
  | nil => exact Units.nil.cons hclose
  | cons l ls =>
    obtain ⟨hl, hls⟩ := List.forall_mem_cons.mp h
    exact hl.trans (more hls)

theorem quotedChars (cs : List Char) : Units (quotedChars cs) := by
  induction cs with
  | nil => exact Units.nil.cons (by decide)
  | cons c cs ih => exact .append (.inr ⟨c, rfl⟩) ih

end Units

/-! ## Documents -/

theorem PyNumber.WellFormed.units {n : PyNumber} (h : n.WellFormed) : Units n.dumps.toList :=
  .of_plain fun hslash ↦ by cases h.dumps.1 _ hslash

mutual

/-- The text of a document is a row of units. -/
theorem Json.units_print (a : PyJson) (h : a.WellFormed) : Units a.print := by
  match a with
  | .null => exact .of_plain (by decide)
  | .bool true => exact .of_plain (by decide)
  | .bool false => exact .of_plain (by decide)
  | .num n => exact (h n (List.mem_singleton.mpr rfl)).units
  | .str s => exact (Units.quotedChars s.toList).cons (by decide)
  | .arr items => exact (Units.closeWith (by decide) (units_printItems items h)).cons (by decide)
  | .obj entries =>
    exact (Units.closeWith (by decide) (units_printEntries entries h)).cons (by decide)

theorem units_printItems (l : List PyJson) (h : ∀ n ∈ numbersItems l, n.WellFormed) :
    ∀ t ∈ printItems l, Units t := by
  match l with
  | [] => exact List.forall_mem_nil _
  | a :: l =>
    obtain ⟨ha, hl⟩ := List.forall_mem_append.mp h
    exact List.forall_mem_cons.mpr ⟨a.units_print ha, units_printItems l hl⟩

theorem units_printEntries (l : List (String × PyJson))
    (h : ∀ n ∈ numbersEntries l, n.WellFormed) : ∀ t ∈ printEntries l, Units t := by
  match l with
  | [] => exact List.forall_mem_nil _
  | (k, a) :: l =>
    obtain ⟨ha, hl⟩ := List.forall_mem_append.mp h
    refine List.forall_mem_cons.mpr ⟨?_, units_printEntries l hl⟩
    exact ((Units.quotedChars k.toList).trans ((a.units_print ha).cons (by decide))).cons (by decide)

end

/-- Two documents with one text in ASCII have one text. -/
theorem Dict.canonical_of_ensureAscii {d e : Dict} (hd : d.WellFormed) (he : e.WellFormed)
    (h : ensureAscii (canonical d) = ensureAscii (canonical e)) : canonical d = canonical e := by
  have units {d : Dict} (hd : d.WellFormed) : Units (canonical d).toList := by
    rw [toList_canonical]
    exact Json.units_print d.sorted fun n hn ↦ hd n ((Json.mem_numbers_sorted _).mp hn)
  exact String.toList_injective ((units hd).flatMap_inj (units he)
    (String.ofList_injective h))

end Haki.Data
