import Haki.Data.Canonical
import Haki.Data.Fork
import Haki.Data.PyStr

/-!
# JavaScript's reading of a decoded JSON value

`??`, conditions, `String` and `JSON.stringify`.  A property that an object does
not have is `undefined`.  How an engine writes a number is a parameter here.

`JSON.stringify` and Python's `str` never write the same text for an object
with an entry: the first key is quoted differently, or is followed by a blank
in one text only.
-/

namespace Haki.Data

/-! ## Values -/

/-- A property of an object: `none` is `undefined`. -/
abbrev JsValue := Option PyJson

/-- `a ?? b`. -/
def nullish : JsValue → JsValue → JsValue
  | none, b | some .null, b => b
  | a, _ => a

/-- Whether a value is true in a condition.  Arrays and objects are. -/
def truthy : JsValue → Bool
  | none | some .null => false
  | some (.bool b) => b
  | some (.num n) => n.value ≠ 0
  | some (.str s) => s ≠ ""
  | some (.arr _) | some (.obj _) => true

/-- A property of a value: only an object has any. -/
def property : JsValue → String → JsValue
  | some (.obj entries), k => (entries.find? fun e ↦ e.1 = k).map Prod.snd
  | _, _ => none

/-- What an engine writes for the number that a literal is read as. -/
structure JsEngine where
  /-- In `String`. -/
  numberText : PyNumber → String
  /-- In `JSON.stringify`. -/
  numberJson : PyNumber → String

/-- The index a property name is, if it is one: digits without a leading zero. -/
def arrayIndex? (k : String) : Option Nat :=
  if k.toList.all Char.isDigit ∧ k ≠ "" ∧ (k = "0" ∨ k.toList.head? ≠ some '0') ∧
      digitsValue k.toList < 4294967295 then
    some (digitsValue k.toList)
  else none

/-- The order of the properties of an object: indices first, in ascending order. -/
def propertyOrder {β : Type} (entries : List (String × β)) : List (String × β) :=
  ((entries.filter fun e ↦ (arrayIndex? e.1).isSome).insertionSort fun a b ↦
    (arrayIndex? a.1).getD 0 ≤ (arrayIndex? b.1).getD 0) ++
  entries.filter fun e ↦ ¬ (arrayIndex? e.1).isSome

namespace JsEngine

variable (engine : JsEngine)

mutual

/-- `String` of a value.  `none` is an exception: an object whose own `toString` is not a function
has no text. -/
def valueText : PyJson → Option String
  | .null => some "null"
  | .bool b => some (if b then "true" else "false")
  | .num n => some (engine.numberText n)
  | .str s => some s
  | .arr items => (joinItems items).map ",".intercalate
  | .obj entries => if entries.any (·.1 = "toString") then none else some "[object Object]"

/-- `join` writes nothing for `null`. -/
def joinItems : List PyJson → Option (List String)
  | [] => some []
  | .null :: as => (joinItems as).map ("" :: ·)
  | a :: as => do
    let text ← valueText a
    let texts ← joinItems as
    pure (text :: texts)

end

/-- `String`. -/
def text : JsValue → Option String
  | none => some "undefined"
  | some a => engine.valueText a

mutual

/-- `JSON.stringify` of a value that was read from JSON. -/
def stringify : PyJson → String
  | .null => "null"
  | .bool b => if b then "true" else "false"
  | .num n => engine.numberJson n
  | .str s => dumpsStr s
  | .arr items => "[" ++ ",".intercalate (stringifyItems items) ++ "]"
  | .obj entries =>
    "\x7b" ++ ",".intercalate ((propertyOrder (stringifyEntries entries)).map fun e ↦
      dumpsStr e.1 ++ ":" ++ e.2) ++ "\x7d"

def stringifyItems : List PyJson → List String
  | [] => []
  | a :: as => stringify a :: stringifyItems as

def stringifyEntries : List (String × PyJson) → List (String × String)
  | [] => []
  | (k, a) :: as => (k, stringify a) :: stringifyEntries as

end

/-- A number is written as JSON writes one, or as `null`. -/
structure Lawful : Prop where
  numberJson : ∀ n, ∃ c rest, (engine.numberJson n).toList = c :: rest ∧
    (c.isDigit ∨ c = '-' ∨ c = 'n')

end JsEngine

/-- Index properties come first. -/
example : (JsEngine.mk (fun _ ↦ "1") fun _ ↦ "1").stringify
    (.obj [("b", .null), ("10", .bool true), ("2", .arr [.num (.int 1), .str "a"])]) =
    "\x7b\"2\":[1,\"a\"],\"10\":true,\"b\":null\x7d" := by
  decide +kernel

/-! ## Objects -/

/-- A word without the characters that quoting and punctuation add. -/
def Unquoted (word : List Char) : Prop :=
  ∀ c ∈ word, 32 < c.toNat ∧ c.toNat < 127 ∧ c.isDigit = false ∧
    c ∉ ['"', Char.ofNat 39, '\\', ':', 'x', 'u', 'b', 'f', 'n', 't', '[', '\x7b', '-']

instance (word : List Char) : Decidable (Unquoted word) :=
  List.decidableBAll _ word

section Objects

variable {word : List Char} (hword : Unquoted word) (isPrintable : Char → Bool)

include hword

theorem Unquoted.notMem {c : Char}
    (h : c ∈ ['"', Char.ofNat 39, '\\', ':', 'x', 'u', 'b', 'f', 'n', 't', '[', '\x7b', '-']) :
    c ∉ word := fun hmem ↦ (hword c hmem).2.2.2 h

/-- A character that is not a double quote is written alike, or its two texts part. -/
theorem reprChar_or_part {e : Char} (he : e ≠ '"') :
    reprChar isPrintable '"' e = (escapeChar e).toList ∨
      ∃ w c d x y, reprChar isPrintable '"' e = w ++ c :: x ∧ (escapeChar e).toList = w ++ d :: y ∧
        c ≠ d ∧ c ∉ word ∧ d ∉ word := by
  by_cases hbackslash : e = '\\'
  · exact .inl (by subst hbackslash; rfl)
  by_cases htab : e = '\t'
  · exact .inl (by subst htab; rfl)
  by_cases hnewline : e = '\n'
  · exact .inl (by subst hnewline; rfl)
  by_cases hreturn : e = '\r'
  · exact .inl (by subst hreturn; rfl)
  have hraw : ¬ e.toNat < 32 → (escapeChar e).toList = [e] := by
    intro h
    rw [escapeChar, if_neg he, if_neg hbackslash, if_neg hnewline, if_neg hreturn, if_neg htab,
      if_neg (by omega), if_neg (by omega), if_neg h, String.toList_ofList]
  by_cases hcontrol : e.toNat < 32
  · have hrepr : reprChar isPrintable '"' e = '\\' :: 'x' :: hexDigits 2 e.toNat := by
      rw [reprChar, if_neg (not_or.mpr ⟨he, hbackslash⟩), if_neg htab, if_neg hnewline,
        if_neg hreturn, if_pos (.inl hcontrol)]
    obtain ⟨d, y, hescape, hne, hd⟩ : ∃ d y, (escapeChar e).toList = '\\' :: d :: y ∧
        'x' ≠ d ∧ d ∉ word := by
      rw [escapeChar, if_neg he, if_neg hbackslash, if_neg hnewline, if_neg hreturn, if_neg htab]
      split
      · exact ⟨'b', [], rfl, by decide, hword.notMem (by decide)⟩
      · split
        · exact ⟨'f', [], rfl, by decide, hword.notMem (by decide)⟩
        · rw [String.toList_append]
          exact ⟨'u', _, rfl, by decide, hword.notMem (by decide)⟩
    exact .inr ⟨['\\'], 'x', d, _, y, hrepr, hescape, hne, hword.notMem (by decide), hd⟩
  by_cases hplain : e.toNat < 127 ∨ (e.toNat ≠ 127 ∧ isPrintable e)
  · refine .inl ?_
    rw [hraw hcontrol, reprChar, if_neg (not_or.mpr ⟨he, hbackslash⟩), if_neg htab, if_neg hnewline,
      if_neg hreturn, if_neg (by omega), if_pos (hplain.imp_right And.right)]
  · have hrepr : ∃ x, reprChar isPrintable '"' e = '\\' :: x := by
      rw [reprChar, if_neg (not_or.mpr ⟨he, hbackslash⟩), if_neg htab, if_neg hnewline,
        if_neg hreturn]
      split
      · exact ⟨_, rfl⟩
      · next hnot =>
        rw [if_neg fun h ↦ hplain (h.imp_right fun hp ↦ ⟨by omega, hp⟩)]
        split
        · exact ⟨_, rfl⟩
        · split
          · exact ⟨_, rfl⟩
          · exact ⟨_, rfl⟩
    obtain ⟨x, hx⟩ := hrepr
    exact .inr ⟨[], '\\', e, x, [], hx, hraw hcontrol, Ne.symm hbackslash, hword.notMem (by decide),
      fun hmem ↦ hplain (.inl (hword e hmem).2.1)⟩

theorem Unquoted.digit {c : Char} (h : c.isDigit) : c ∉ word := fun hmem ↦ by
  rw [(hword c hmem).2.2.1] at h
  cases h

/-- A key that both texts quote in the same way: they part at the colon, if not before. -/
theorem partApart_sameKey {cs : List Char} (hcs : '"' ∉ cs) {v : Char} (hv : v ≠ ' ')
    (p x y : List Char) :
    PartApart word (p ++ (cs.flatMap (reprChar isPrintable '"') ++ '"' :: ':' :: ' ' :: x))
      (p ++ (quotedChars cs ++ ':' :: v :: y)) := by
  induction cs generalizing p with
  | nil =>
    have hcolon : ∀ l ∈ (p ++ ['"', ':']).getLast?, l ∉ word := by
      rw [List.getLast?_append]
      rintro _ ⟨⟩
      exact hword.notMem (by decide)
    simpa [quotedChars] using PartApart.of_last (Ne.symm hv) hcolon x y
  | cons e cs ih =>
    obtain ⟨he, hcs⟩ := not_or.mp (List.mem_cons.not.mp hcs)
    rcases reprChar_or_part hword isPrintable (Ne.symm he) with
      hsame | ⟨w, c, d, x', y', hrepr, hescape, hne, hc, hd⟩
    · rw [List.flatMap_cons, quotedChars, hsame, List.append_assoc, List.append_assoc,
        ← List.append_assoc p, ← List.append_assoc p]
      exact ih hcs (p ++ (escapeChar e).toList)
    · rw [List.flatMap_cons, quotedChars, hrepr, hescape]
      simpa using PartApart.of_next hne hc hd (p ++ w)
        (x' ++ (cs.flatMap (reprChar isPrintable '"') ++ '"' :: ':' :: ' ' :: x))
        (y' ++ (quotedChars cs ++ ':' :: v :: y))

omit hword in
/-- How a character that is not a digit begins. -/
theorem reprChar_head {e : Char} (he : e ≠ '"') (hdigit : e.isDigit = false) :
    ∃ c x, reprChar isPrintable '"' e = c :: x ∧ c ≠ '"' ∧ c.isDigit = false := by
  have hself : ∃ c x, [e] = c :: x ∧ c ≠ '"' ∧ c.isDigit = false := ⟨e, [], rfl, he, hdigit⟩
  have hescaped (l : List Char) : ∃ c x, '\\' :: l = c :: x ∧ c ≠ '"' ∧ c.isDigit = false :=
    ⟨'\\', l, rfl, by decide, by decide⟩
  unfold reprChar
  repeat' split
  all_goals first
    | exact hself
    | exact hescaped _

omit hword in
/-- A digit is written as it is. -/
theorem digit_written {e : Char} (h : e.isDigit) :
    reprChar isPrintable '"' e = [e] ∧ (escapeChar e).toList = [e] := by
  have hrange : 48 ≤ e.toNat ∧ e.toNat ≤ 57 := Char.isDigit_iff_toNat.mp h
  have hne {c : Char} (hc : c.isDigit = false) : e ≠ c := by
    rintro rfl
    rw [h] at hc
    cases hc
  constructor
  · rw [reprChar, if_neg (not_or.mpr ⟨hne (by decide), hne (by decide)⟩), if_neg (hne (by decide)),
      if_neg (hne (by decide)), if_neg (hne (by decide)), if_neg (by omega),
      if_pos (.inl (by omega))]
  · rw [escapeChar, if_neg (hne (by decide)), if_neg (hne (by decide)), if_neg (hne (by decide)),
      if_neg (hne (by decide)), if_neg (hne (by decide)), if_neg (by omega), if_neg (by omega),
      if_neg (by omega), String.toList_ofList]

/-- A key that is not a number against one that is: the texts part where the first key has something
else than a digit, if not before. -/
theorem partApart_indexKey {cs ds : List Char} (hcs : '"' ∉ cs) (hds : ∀ d ∈ ds, d.isDigit)
    (hother : ∃ c ∈ cs, c.isDigit = false) {p : List Char} (hp : ∀ l ∈ p.getLast?, l ∉ word)
    (x y : List Char) :
    PartApart word (p ++ (cs.flatMap (reprChar isPrintable '"') ++ x))
      (p ++ (quotedChars ds ++ y)) := by
  induction cs generalizing ds p with
  | nil =>
    obtain ⟨c, hc, -⟩ := hother
    cases hc
  | cons e cs ih =>
    obtain ⟨he, hcs⟩ := not_or.mp (List.mem_cons.not.mp hcs)
    by_cases hdigit : e.isDigit
    · rw [List.flatMap_cons, (digit_written isPrintable hdigit).1]
      cases ds with
      | nil => exact .of_last (Ne.symm he) hp _ _
      | cons d ds =>
        obtain ⟨hd, hrestDigits⟩ := List.forall_mem_cons.mp hds
        rw [quotedChars, (digit_written isPrintable hd).2]
        by_cases hed : e = d
        · subst hed
          have hrest : ∃ c ∈ cs, c.isDigit = false := by
            obtain ⟨c, hc, hcdigit⟩ := hother
            rcases List.mem_cons.mp hc with rfl | hc
            · rw [hdigit] at hcdigit
              cases hcdigit
            · exact ⟨c, hc, hcdigit⟩
          have hlast : ∀ l ∈ (p ++ [e]).getLast?, l ∉ word := by
            rw [List.getLast?_concat]
            rintro _ ⟨⟩
            exact hword.digit hdigit
          simpa using ih hcs hrestDigits hrest hlast
        · exact .of_last hed hp _ _
    · have hdigit : e.isDigit = false := Bool.eq_false_iff.mpr hdigit
      obtain ⟨c, x', hrepr, hquote, hcdigit⟩ := reprChar_head isPrintable (Ne.symm he) hdigit
      rw [List.flatMap_cons, hrepr]
      cases ds with
      | nil => exact .of_last hquote hp _ _
      | cons d ds =>
        have hd := hds d List.mem_cons_self
        rw [quotedChars, (digit_written isPrintable hd).2]
        refine .of_last ?_ hp _ _
        rintro rfl
        rw [hd] at hcdigit
        cases hcdigit

omit hword in
/-- A text that is joined first comes first. -/
theorem toList_intercalate_cons (sep a : String) (as : List String) :
    ∃ x, (sep.intercalate (a :: as)).toList = a.toList ++ x := by
  cases as with
  | nil => exact ⟨[], by rw [String.intercalate_singleton, List.append_nil]⟩
  | cons b bs =>
    rw [String.intercalate_cons_cons, String.toList_append, String.toList_append, List.append_assoc]
    exact ⟨_, rfl⟩

omit hword in
/-- The first property is the first entry, or one whose name is an index. -/
theorem propertyOrder_cons {β : Type} (e : String × β) (es : List (String × β)) :
    ∃ f rest, propertyOrder (e :: es) = f :: rest ∧ (f = e ∨ (arrayIndex? f.1).isSome) := by
  have hperm := List.perm_insertionSort (fun a b : String × β ↦
    (arrayIndex? a.1).getD 0 ≤ (arrayIndex? b.1).getD 0)
    ((e :: es).filter fun e ↦ (arrayIndex? e.1).isSome)
  rw [propertyOrder]
  cases hsorted : ((e :: es).filter fun e ↦ (arrayIndex? e.1).isSome).insertionSort fun a b ↦
      (arrayIndex? a.1).getD 0 ≤ (arrayIndex? b.1).getD 0 with
  | nil =>
    rw [hsorted] at hperm
    have hall : (e :: es).filter (fun e ↦ ¬ (arrayIndex? e.1).isSome) = e :: es :=
      List.filter_eq_self.mpr fun f hf ↦ by
        simpa using List.filter_eq_nil_iff.mp (List.nil_perm.mp hperm) f hf
    rw [List.nil_append, hall]
    exact ⟨e, es, rfl, .inl rfl⟩
  | cons f fs =>
    rw [hsorted] at hperm
    exact ⟨f, _, rfl, .inr (List.mem_filter.mp (hperm.mem_iff.mp List.mem_cons_self)).2⟩

omit hword in
theorem isDigit_of_arrayIndex? {k : String} (h : (arrayIndex? k).isSome) :
    ∀ c ∈ k.toList, c.isDigit := by
  rw [arrayIndex?] at h
  split at h
  next hindex => exact List.all_eq_true.mp hindex.1
  next => cases h

omit hword in
/-- No text of `JSON.stringify` begins with a blank. -/
theorem stringify_head {engine : JsEngine} (hengine : engine.Lawful) (a : PyJson) :
    ∃ c x, (engine.stringify a).toList = c :: x ∧ c ≠ ' ' := by
  cases a with
  | null => exact ⟨'n', ['u', 'l', 'l'], by rw [JsEngine.stringify]; decide, by decide⟩
  | bool b =>
    cases b with
    | false => exact ⟨'f', ['a', 'l', 's', 'e'], by rw [JsEngine.stringify]; decide, by decide⟩
    | true => exact ⟨'t', ['r', 'u', 'e'], by rw [JsEngine.stringify]; decide, by decide⟩
  | num n =>
    obtain ⟨c, x, htext, hc⟩ := hengine.numberJson n
    refine ⟨c, x, htext, ?_⟩
    rintro rfl
    rcases hc with hc | hc | hc <;> cases hc
  | str s => exact ⟨'"', _, toList_dumpsStr s, by decide⟩
  | arr items =>
    rw [JsEngine.stringify, String.toList_append, String.toList_append]
    exact ⟨'[', _, rfl, by decide⟩
  | obj entries =>
    rw [JsEngine.stringify, String.toList_append, String.toList_append]
    exact ⟨'\x7b', _, rfl, by decide⟩

/-- `str` and `JSON.stringify` of an object with an entry part. -/
theorem partApart_object {engine : JsEngine} (hengine : engine.Lawful) (k : String) (v : PyJson)
    (es : List (String × PyJson)) :
    PartApart word ((Json.obj ((k, v) :: es)).pyRepr isPrintable).toList
      (engine.stringify (.obj ((k, v) :: es))).toList := by
  obtain ⟨x, hpython⟩ : ∃ x, ((Json.obj ((k, v) :: es)).pyRepr isPrintable).toList =
      '\x7b' :: reprQuote k.toList ::
        (k.toList.flatMap (reprChar isPrintable (reprQuote k.toList)) ++
          reprQuote k.toList :: ':' :: ' ' :: x) := by
    obtain ⟨x, hx⟩ := toList_intercalate_cons ", " (reprStr isPrintable k ++ ": " ++
      v.pyRepr isPrintable) (pyReprEntries isPrintable es)
    rw [Json.pyRepr, String.toList_append, String.toList_append, pyReprEntries, hx,
      String.toList_append, String.toList_append, reprStr, String.toList_ofList]
    refine ⟨(v.pyRepr isPrintable).toList ++ x ++ ['\x7d'], ?_⟩
    simp
  obtain ⟨f, rest, horder, hf⟩ := propertyOrder_cons (k, engine.stringify v)
    (engine.stringifyEntries es)
  obtain ⟨y, hjs⟩ : ∃ y, (engine.stringify (.obj ((k, v) :: es))).toList =
      '\x7b' :: '"' :: (quotedChars f.1.toList ++ ':' :: (f.2.toList ++ y)) := by
    obtain ⟨y, hy⟩ := toList_intercalate_cons "," (dumpsStr f.1 ++ ":" ++ f.2)
      (rest.map fun e ↦ dumpsStr e.1 ++ ":" ++ e.2)
    rw [JsEngine.stringify, JsEngine.stringifyEntries, horder, List.map_cons, String.toList_append,
      String.toList_append, hy, String.toList_append, String.toList_append, toList_dumpsStr]
    refine ⟨y ++ ['\x7d'], ?_⟩
    simp
  rw [hpython, hjs]
  have hquote : ∀ l ∈ ['\x7b', '"'].getLast?, l ∉ word := by
    rintro _ ⟨⟩
    exact hword.notMem (by decide)
  by_cases hdouble : Char.ofNat 39 ∈ k.toList ∧ '"' ∉ k.toList
  · have hq : reprQuote k.toList = '"' := if_pos hdouble
    rw [hq]
    rcases hf with rfl | hindex
    · obtain ⟨c, z, htext, hc⟩ := stringify_head hengine v
      rw [htext]
      exact partApart_sameKey hword isPrintable hdouble.2 hc ['\x7b', '"'] x (z ++ y)
    · exact partApart_indexKey hword isPrintable hdouble.2 (isDigit_of_arrayIndex? hindex)
        ⟨_, hdouble.1, by decide⟩ hquote _ _
  · have hq : reprQuote k.toList = Char.ofNat 39 := if_neg hdouble
    rw [hq]
    refine PartApart.of_last (w := ['\x7b']) (by decide) ?_ _ _
    rintro _ ⟨⟩
    exact hword.notMem (by decide)

end Objects

end Haki.Data
