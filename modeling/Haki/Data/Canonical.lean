import Haki.Data.Json

/-!
# What the canonical text determines

`json.dumps` with sorted keys is injective up to the order of keys: two
documents have the same canonical text exactly when they are the same tree
once the keys are in order, every number written the same way
(`canonical_eq_iff`).  The `jsonb` reading forgets how a number is written and
nothing else (`toJsonb_eq_iff`).  So the two equalities of objects differ
exactly on the pairs that are `Respelled`.

Printing is inverted by prefixes: a text that starts with the text of a value
determines the value and what follows it.
-/

namespace Haki.Data

variable {N M : Type}

/-! ## Trees with their keys in order -/

mutual

/-- The tree with the keys of every object in order. -/
def Json.sorted : Json N → Json N
  | .arr items => .arr (sortedItems items)
  | .obj entries => .obj (sortByKey (sortedEntries entries))
  | a => a

def sortedItems : List (Json N) → List (Json N)
  | [] => []
  | a :: as => a.sorted :: sortedItems as

def sortedEntries : List (String × Json N) → List (String × Json N)
  | [] => []
  | (k, a) :: as => (k, a.sorted) :: sortedEntries as

end

mutual

/-- The numbers of a tree, from left to right. -/
def Json.numbers : Json N → List N
  | .num n => [n]
  | .arr items => numbersItems items
  | .obj entries => numbersEntries entries
  | _ => []

def numbersItems : List (Json N) → List N
  | [] => []
  | a :: as => a.numbers ++ numbersItems as

def numbersEntries : List (String × Json N) → List N
  | [] => []
  | (_, a) :: as => a.numbers ++ numbersEntries as

end

mutual

/-- The tree with its numbers read by `g`. -/
def Json.mapNum (g : N → M) : Json N → Json M
  | .null => .null
  | .bool b => .bool b
  | .num n => .num (g n)
  | .str s => .str s
  | .arr items => .arr (mapNumItems g items)
  | .obj entries => .obj (mapNumEntries g entries)

def mapNumItems (g : N → M) : List (Json N) → List (Json M)
  | [] => []
  | a :: as => a.mapNum g :: mapNumItems g as

def mapNumEntries (g : N → M) : List (String × Json N) → List (String × Json M)
  | [] => []
  | (k, a) :: as => (k, a.mapNum g) :: mapNumEntries g as

end

theorem sortedEntries_eq (l : List (String × Json N)) :
    sortedEntries l = l.map fun e ↦ (e.1, e.2.sorted) := by
  induction l with
  | nil => rfl
  | cons e l ih => rw [sortedEntries, ih, List.map_cons]

theorem mapNumEntries_eq (g : N → M) (l : List (String × Json N)) :
    mapNumEntries g l = l.map fun e ↦ (e.1, e.2.mapNum g) := by
  induction l with
  | nil => rfl
  | cons e l ih => rw [mapNumEntries, ih, List.map_cons]

theorem numbersEntries_eq (l : List (String × Json N)) :
    numbersEntries l = l.flatMap fun e ↦ e.2.numbers := by
  induction l with
  | nil => rfl
  | cons e l ih => rw [numbersEntries, ih, List.flatMap_cons]

/-- Ordering keys and rewriting values commute. -/
theorem map_sortByKey {α β : Type} (g : α → β) (l : List (String × α)) :
    (sortByKey l).map (fun e ↦ (e.1, g e.2)) = sortByKey (l.map fun e ↦ (e.1, g e.2)) :=
  List.map_insertionSort _ _ _ _ fun _ _ _ _ ↦ Iff.rfl

theorem mem_sortByKey {α : Type} {l : List (String × α)} {e : String × α} :
    e ∈ sortByKey l ↔ e ∈ l :=
  List.mem_insertionSort _

mutual

/-- The `jsonb` reading is the tree with its keys in order, numbers read by value. -/
theorem Json.toJsonb_eq (a : PyJson) : a.toJsonb = a.sorted.mapNum PyNumber.value := by
  cases a with
  | arr items => rw [Json.toJsonb, Json.sorted, Json.mapNum, toJsonbItems_eq items]
  | obj entries =>
    rw [Json.toJsonb, Json.sorted, Json.mapNum, toJsonbEntries_eq entries, mapNumEntries_eq,
      mapNumEntries_eq, map_sortByKey]
  | _ => rfl

theorem toJsonbItems_eq (l : List PyJson) :
    toJsonbItems l = mapNumItems PyNumber.value (sortedItems l) := by
  cases l with
  | nil => rfl
  | cons a l => rw [toJsonbItems, sortedItems, mapNumItems, a.toJsonb_eq, toJsonbItems_eq l]

theorem toJsonbEntries_eq (l : List (String × PyJson)) :
    toJsonbEntries l = mapNumEntries PyNumber.value (sortedEntries l) := by
  match l with
  | [] => rfl
  | (k, a) :: l =>
    rw [toJsonbEntries, sortedEntries, mapNumEntries, a.toJsonb_eq, toJsonbEntries_eq l]

end

mutual

/-- Ordering keys keeps the numbers. -/
theorem Json.mem_numbers_sorted {n : N} (a : Json N) : n ∈ a.sorted.numbers ↔ n ∈ a.numbers := by
  cases a with
  | arr items => exact mem_numbersItems_sorted items
  | obj entries =>
    rw [Json.sorted, Json.numbers, Json.numbers, ← mem_numbersEntries_sorted entries,
      numbersEntries_eq, numbersEntries_eq]
    simp only [List.mem_flatMap, mem_sortByKey]
  | _ => exact Iff.rfl

theorem mem_numbersItems_sorted {n : N} (l : List (Json N)) :
    n ∈ numbersItems (sortedItems l) ↔ n ∈ numbersItems l := by
  match l with
  | [] => exact Iff.rfl
  | a :: l =>
    rw [sortedItems, numbersItems, numbersItems, List.mem_append, List.mem_append,
      a.mem_numbers_sorted, mem_numbersItems_sorted l]

theorem mem_numbersEntries_sorted {n : N} (l : List (String × Json N)) :
    n ∈ numbersEntries (sortedEntries l) ↔ n ∈ numbersEntries l := by
  match l with
  | [] => exact Iff.rfl
  | (k, a) :: l =>
    rw [sortedEntries, numbersEntries, numbersEntries, List.mem_append, List.mem_append,
      a.mem_numbers_sorted, mem_numbersEntries_sorted l]

end

/-! ## A tree is its reading and its numbers -/

mutual

/-- Two trees with one reading and, from the left, the same numbers are the same tree. -/
theorem Json.eq_of_mapNum {g : N → M} {x y : List N} (a b : Json N)
    (h : a.mapNum g = b.mapNum g) (hn : a.numbers ++ x = b.numbers ++ y) : a = b ∧ x = y := by
  cases a <;> cases b <;> simp only [Json.mapNum, reduceCtorEq] at h
  case num.num m n => simpa [Json.numbers] using hn
  case arr.arr l l' =>
    obtain ⟨rfl, hx⟩ := eq_of_mapNumItems l l' (Json.arr.inj h) hn
    exact ⟨rfl, hx⟩
  case obj.obj l l' =>
    obtain ⟨rfl, hx⟩ := eq_of_mapNumEntries l l' (Json.obj.inj h) hn
    exact ⟨rfl, hx⟩
  all_goals simpa [Json.numbers] using And.intro h hn

theorem eq_of_mapNumItems {g : N → M} {x y : List N} (l l' : List (Json N))
    (h : mapNumItems g l = mapNumItems g l') (hn : numbersItems l ++ x = numbersItems l' ++ y) :
    l = l' ∧ x = y := by
  match l, l' with
  | [], [] => exact ⟨rfl, hn⟩
  | [], _ :: _ | _ :: _, [] => cases h
  | a :: l, b :: l' =>
    obtain ⟨ha, hl⟩ := List.cons.inj h
    simp only [numbersItems, List.append_assoc] at hn
    obtain ⟨rfl, hrest⟩ := Json.eq_of_mapNum a b ha hn
    obtain ⟨rfl, hx⟩ := eq_of_mapNumItems l l' hl hrest
    exact ⟨rfl, hx⟩

theorem eq_of_mapNumEntries {g : N → M} {x y : List N} (l l' : List (String × Json N))
    (h : mapNumEntries g l = mapNumEntries g l')
    (hn : numbersEntries l ++ x = numbersEntries l' ++ y) : l = l' ∧ x = y := by
  match l, l' with
  | [], [] => exact ⟨rfl, hn⟩
  | [], _ :: _ | _ :: _, [] => cases h
  | (k, a) :: l, (k', b) :: l' =>
    obtain ⟨he, hl⟩ := List.cons.inj h
    obtain ⟨rfl, ha⟩ := Prod.mk.inj he
    simp only [numbersEntries, List.append_assoc] at hn
    obtain ⟨rfl, hrest⟩ := Json.eq_of_mapNum a b ha hn
    obtain ⟨rfl, hx⟩ := eq_of_mapNumEntries l l' hl hrest
    exact ⟨rfl, hx⟩

end

/-! ## Number literals -/

/-- The characters of a number literal. -/
def isNumberChar (c : Char) : Bool := c.isDigit || c = '-' || c = '+' || c = '.' || c = 'e'

/-- A literal that `repr` writes for a finite `float`: digits, signs, and a point or an exponent. -/
def IsFloatRepr (repr : String) : Prop :=
  (∀ c ∈ repr.toList, isNumberChar c) ∧ (∃ c ∈ repr.toList, c = '.' ∨ c = 'e') ∧
    ∃ c ∈ repr.toList.head?, c.isDigit ∨ c = '-'

instance (repr : String) : Decidable (IsFloatRepr repr) := inferInstanceAs (Decidable (_ ∧ _ ∧ _))

/-- An `int`, or a `float` by a literal that `repr` writes. -/
def PyNumber.WellFormed : PyNumber → Prop
  | .int _ => True
  | .float repr => IsFloatRepr repr

/-- All numbers of the tree are well formed. -/
def Json.WellFormed (a : PyJson) : Prop := ∀ n ∈ a.numbers, n.WellFormed

theorem isNumberChar_of_isDigit {c : Char} (h : c.isDigit) : isNumberChar c := by
  simp [isNumberChar, h]

/-- An `int` is written with digits and possibly a minus. -/
theorem mem_toList_repr {n : Int} {c : Char} (h : c ∈ n.repr.toList) : c.isDigit ∨ c = '-' := by
  rw [Int.repr_eq_if] at h
  split at h
  · rw [Nat.toList_repr] at h
    exact .inl (Nat.isDigit_of_mem_toDigits (by decide) (by decide) h)
  · rw [String.toList_append, List.mem_append, Nat.toList_repr] at h
    rcases h with h | h
    · exact .inr (by simpa using h)
    · exact .inl (Nat.isDigit_of_mem_toDigits (by decide) (by decide) h)

theorem natRepr_injective : Function.Injective Nat.repr := by
  intro m n h
  have := congrArg (Nat.ofDigitChars 10 · 0) (congrArg String.toList h)
  simpa [Nat.toList_repr] using this

theorem intRepr_injective : Function.Injective Int.repr := by
  intro m n h
  have head_ne {k : Nat} {x : String} (h : k.repr = "-" ++ x) : False := by
    have hm : '-' ∈ k.repr.toList := by rw [h, String.toList_append]; simp
    rw [Nat.toList_repr] at hm
    exact absurd (Nat.isDigit_of_mem_toDigits (by decide) (by decide) hm) (by decide)
  rw [Int.repr_eq_if, Int.repr_eq_if] at h
  split at h <;> split at h
  · have := natRepr_injective h
    omega
  · exact (head_ne h).elim
  · exact (head_ne h.symm).elim
  · have := natRepr_injective ((String.append_right_inj _).mp h)
    omega

theorem toList_repr_ne_nil (n : Int) : n.repr.toList ≠ [] := by
  rw [Int.repr_eq_if]
  split
  · rw [Nat.toList_repr]
    exact Nat.toDigits_ne_nil
  · simp

/-- A number literal is not empty and consists of number characters, the first of them a digit or
a minus. -/
theorem PyNumber.WellFormed.dumps {n : PyNumber} (h : n.WellFormed) :
    (∀ c ∈ n.dumps.toList, isNumberChar c) ∧ ∃ c ∈ n.dumps.toList.head?, c.isDigit ∨ c = '-' := by
  cases n with
  | float repr => exact ⟨h.1, h.2.2⟩
  | int n =>
    have hmem {c : Char} (hc : c ∈ n.repr.toList) := mem_toList_repr hc
    refine ⟨fun c hc ↦ ?_, ?_⟩
    · rcases hmem hc with hd | rfl
      · exact isNumberChar_of_isDigit hd
      · rfl
    · obtain ⟨c, l, hl⟩ := List.exists_cons_of_ne_nil (toList_repr_ne_nil n)
      exact ⟨c, by rw [PyNumber.dumps, Int.toString_eq_repr, hl]; rfl, hmem (hl ▸ List.mem_cons_self)⟩

/-- Different numbers have different literals. -/
theorem PyNumber.dumps_injOn {m n : PyNumber} (hm : m.WellFormed) (hn : n.WellFormed)
    (h : m.dumps = n.dumps) : m = n := by
  -- Only a `float` has a point or an exponent.
  have int_ne {k : Int} {repr : String} (hf : IsFloatRepr repr) (h : k.repr = repr) : False := by
    obtain ⟨-, ⟨c, hc, hdot⟩, -⟩ := hf
    rcases mem_toList_repr (h ▸ hc) with hd | rfl
    · rcases hdot with rfl | rfl <;> exact absurd hd (by decide)
    · exact absurd hdot (by decide)
  cases m <;> cases n
  case int.int m n => exact congrArg PyNumber.int (intRepr_injective h)
  case int.float k repr => exact (int_ne hn h).elim
  case float.int repr k => exact (int_ne hm h.symm).elim
  case float.float => exact congrArg PyNumber.float h

/-- The text that follows a number. -/
def Stops (x : List Char) : Prop := ∀ c ∈ x.head?, ¬ isNumberChar c

theorem stops_cons {c : Char} {x : List Char} (h : isNumberChar c = false) : Stops (c :: x) := by
  rintro _ ⟨⟩
  simp [h]

theorem takeWhile_isNumberChar {u x : List Char} (hu : ∀ c ∈ u, isNumberChar c) (hx : Stops x) :
    (u ++ x).takeWhile isNumberChar = u := by
  rw [List.takeWhile_append_of_pos hu]
  cases x with
  | nil => simp
  | cons c x =>
    have hc := hx c rfl
    simp [hc]

/-- A number literal ends where the number characters end. -/
theorem number_append_inj {u v x y : List Char} (hu : ∀ c ∈ u, isNumberChar c)
    (hv : ∀ c ∈ v, isNumberChar c) (hx : Stops x) (hy : Stops y) (h : u ++ x = v ++ y) :
    u = v ∧ x = y := by
  have huv : u = v := by
    rw [← takeWhile_isNumberChar hu hx, h, takeWhile_isNumberChar hv hy]
  exact ⟨huv, List.append_cancel_left (huv ▸ h)⟩

/-! ## String literals -/

/-- The value of a lower-case hexadecimal digit. -/
def hexValue (c : Char) : Nat := if c.isDigit then c.toNat - 48 else c.toNat - 87

/-- Read one possibly escaped character. -/
def unescape : List Char → Option (Char × List Char)
  | '\\' :: 'n' :: x => some ('\n', x)
  | '\\' :: 'r' :: x => some ('\r', x)
  | '\\' :: 't' :: x => some ('\t', x)
  | '\\' :: 'b' :: x => some (Char.ofNat 8, x)
  | '\\' :: 'f' :: x => some (Char.ofNat 12, x)
  | '\\' :: 'u' :: _ :: _ :: c :: d :: x => some (Char.ofNat (16 * hexValue c + hexValue d), x)
  | '\\' :: c :: x => some (c, x)
  | c :: x => some (c, x)
  | [] => none

theorem hexValue_digitChar {d : Nat} (h : d < 16) : hexValue (Nat.digitChar d) = d := by
  revert d
  decide

theorem unescape_of_ne {c : Char} {x : List Char} (h : c ≠ '\\') :
    unescape (c :: x) = some (c, x) := by
  rw [unescape.eq_def]
  split <;> simp_all

/-- An escaped character can be read back. -/
theorem unescape_escapeChar (c : Char) (x : List Char) :
    unescape ((escapeChar c).toList ++ x) = some (c, x) := by
  have char_eq {n : Nat} (h : c.toNat = n) : Char.ofNat n = c := h ▸ Char.ofNat_toNat c
  unfold escapeChar
  split
  · next h => subst h; rfl
  split
  · next h => subst h; rfl
  split
  · next h => subst h; rfl
  split
  · next h => subst h; rfl
  split
  · next h => subst h; rfl
  split
  · next h => rw [← char_eq h]; rfl
  split
  · next h => rw [← char_eq h]; rfl
  split
  · next h =>
    have hx : 16 * (c.toNat / 16) + c.toNat % 16 = c.toNat := by omega
    rw [String.toList_append, String.toList_ofList, String.toList_ofList]
    change some (Char.ofNat (16 * hexValue (Nat.digitChar (c.toNat / 16)) +
      hexValue (Nat.digitChar (c.toNat % 16))), x) = _
    rw [hexValue_digitChar (by omega), hexValue_digitChar (by omega), hx, Char.ofNat_toNat]
  · next h _ _ _ _ _ _ =>
    rw [String.toList_ofList]
    exact unescape_of_ne ‹_›

/-- The characters of a string literal after its opening quote. -/
def quotedChars : List Char → List Char
  | [] => ['"']
  | c :: cs => (escapeChar c).toList ++ quotedChars cs

theorem toList_dumpsStr (s : String) : (dumpsStr s).toList = '"' :: quotedChars s.toList := by
  have htext (cs : List Char) :
      (cs.foldr (fun c text ↦ escapeChar c ++ text) "\"").toList = quotedChars cs := by
    induction cs with
    | nil => rfl
    | cons c cs ih => rw [List.foldr_cons, String.toList_append, ih, quotedChars]
  rw [dumpsStr, String.toList_append, htext]
  rfl

/-- No escaped character starts with a quote. -/
theorem escapeChar_append_ne (c : Char) (x y : List Char) :
    (escapeChar c).toList ++ x ≠ '"' :: y := by
  intro h
  have hread := unescape_escapeChar c x
  rw [h, unescape_of_ne (by decide)] at hread
  obtain ⟨rfl, rfl⟩ := Prod.mk.inj (Option.some.inj hread)
  have hlen := congrArg List.length h
  rw [List.length_append, List.length_cons] at hlen
  have : (escapeChar '"').toList.length = 2 := by decide
  omega

/-- A string literal ends at its closing quote. -/
theorem quotedChars_append_inj {cs ds x y : List Char}
    (h : quotedChars cs ++ x = quotedChars ds ++ y) : cs = ds ∧ x = y := by
  induction cs generalizing ds with
  | nil =>
    cases ds with
    | nil => exact ⟨rfl, (List.cons.inj h).2⟩
    | cons d ds =>
      rw [quotedChars, quotedChars, List.append_assoc] at h
      exact (escapeChar_append_ne d _ _ h.symm).elim
  | cons c cs ih =>
    cases ds with
    | nil =>
      rw [quotedChars, quotedChars, List.append_assoc] at h
      exact (escapeChar_append_ne c _ _ h).elim
    | cons d ds =>
      rw [quotedChars, quotedChars, List.append_assoc, List.append_assoc] at h
      have hread := unescape_escapeChar c (quotedChars cs ++ x)
      rw [h, unescape_escapeChar] at hread
      obtain ⟨rfl, hrest⟩ := Prod.mk.inj (Option.some.inj hread)
      obtain ⟨rfl, hx⟩ := ih hrest.symm
      exact ⟨rfl, hx⟩

/-! ## Documents -/

/-- The rest of a bracketed list after its first item. -/
def closeMore (close : Char) : List (List Char) → List Char
  | [] => [close]
  | l :: ls => ',' :: (l ++ closeMore close ls)

/-- A list of texts, separated by commas and closed by a bracket. -/
def closeWith (close : Char) : List (List Char) → List Char
  | [] => [close]
  | l :: ls => l ++ closeMore close ls

mutual

/-- The compact text of a tree whose keys are in order. -/
def Json.print : PyJson → List Char
  | .null => ['n', 'u', 'l', 'l']
  | .bool true => ['t', 'r', 'u', 'e']
  | .bool false => ['f', 'a', 'l', 's', 'e']
  | .num n => n.dumps.toList
  | .str s => '"' :: quotedChars s.toList
  | .arr items => '[' :: closeWith ']' (printItems items)
  | .obj entries => '\x7b' :: closeWith '\x7d' (printEntries entries)

def printItems : List PyJson → List (List Char)
  | [] => []
  | a :: as => a.print :: printItems as

def printEntries : List (String × PyJson) → List (List Char)
  | [] => []
  | (k, a) :: as => ('"' :: (quotedChars k.toList ++ ':' :: a.print)) :: printEntries as

end

theorem intercalate_append (close : Char) (ls : List (List Char)) :
    [','].intercalate ls ++ [close] = closeWith close ls := by
  cases ls with
  | nil => rfl
  | cons l ls =>
    induction ls generalizing l with
    | nil => simp [closeWith, closeMore]
    | cons l' ls ih =>
      rw [List.intercalate_cons_cons, List.append_assoc, ih l']
      simp [closeWith, closeMore]

theorem printEntries_eq (l : List (String × PyJson)) :
    printEntries l = l.map fun e ↦ '"' :: (quotedChars e.1.toList ++ ':' :: e.2.print) := by
  induction l with
  | nil => rfl
  | cons e l ih => rw [printEntries, ih, List.map_cons]

theorem dumpsEntries_eq (sep : Separators) (l : List (String × PyJson)) :
    dumpsEntries sep l = l.map fun e ↦ (e.1, e.2.dumps sep) := by
  induction l with
  | nil => rfl
  | cons e l ih => rw [dumpsEntries, ih, List.map_cons]

mutual

/-- `json.dumps` prints the tree with its keys in order. -/
theorem Json.toList_dumps (a : PyJson) : (a.dumps .compact).toList = a.sorted.print := by
  cases a with
  | null => rfl
  | bool b => cases b <;> rfl
  | num n => rfl
  | str s => exact toList_dumpsStr s
  | arr items =>
    rw [Json.dumps, Json.sorted, Json.print, String.toList_append, String.toList_append,
      String.toList_intercalate, toList_dumpsItems items, List.append_assoc]
    exact congrArg ('[' :: ·) (intercalate_append ']' _)
  | obj entries =>
    have htexts := toList_dumpsEntries entries
    have hmap : (((sortByKey (dumpsEntries .compact entries)).map fun e ↦
        dumpsStr e.1 ++ Separators.compact.entry ++ e.2).map String.toList) =
        printEntries (sortByKey (sortedEntries entries)) := by
      rw [dumpsEntries_eq, ← map_sortByKey, List.map_map, List.map_map, printEntries_eq,
        sortedEntries_eq, ← map_sortByKey, List.map_map]
      refine List.map_congr_left fun e he ↦ ?_
      have hcolon : Separators.compact.entry.toList = [':'] := rfl
      simp [hcolon, toList_dumpsStr, htexts e (mem_sortByKey.mp he)]
    rw [Json.dumps, Json.sorted, Json.print, dumpsObject, String.toList_append,
      String.toList_append, String.toList_intercalate, hmap, List.append_assoc]
    exact congrArg ('\x7b' :: ·) (intercalate_append '\x7d' _)

theorem toList_dumpsItems (l : List PyJson) :
    (dumpsItems .compact l).map String.toList = printItems (sortedItems l) := by
  match l with
  | [] => rfl
  | a :: l =>
    rw [dumpsItems, List.map_cons, sortedItems, printItems, a.toList_dumps, toList_dumpsItems l]

theorem toList_dumpsEntries (l : List (String × PyJson)) :
    ∀ e ∈ l, (e.2.dumps .compact).toList = e.2.sorted.print := by
  match l with
  | [] => exact fun _ h ↦ absurd h List.not_mem_nil
  | (k, a) :: l => exact List.forall_mem_cons.mpr ⟨a.toList_dumps, toList_dumpsEntries l⟩

end

/-! ## Reading back -/

/-- The kind of value a text starts. -/
def kindOf (c : Char) : Nat :=
  if c = 'n' then 0 else if c = 't' then 1 else if c = 'f' then 2 else if c = '"' then 3
  else if c = '[' then 4 else if c = '\x7b' then 5 else if c.isDigit ∨ c = '-' then 6 else 7

/-- The kind of a value. -/
def Json.kind : Json N → Nat
  | .null => 0
  | .bool true => 1
  | .bool false => 2
  | .str _ => 3
  | .arr _ => 4
  | .obj _ => 5
  | .num _ => 6

theorem kindOf_number {c : Char} (h : c.isDigit ∨ c = '-') : kindOf c = 6 := by
  have hne {d : Char} (hd : ¬ (d.isDigit ∨ d = '-')) : c ≠ d := fun he ↦ hd (he ▸ h)
  rw [kindOf, if_neg (hne (by decide)), if_neg (hne (by decide)), if_neg (hne (by decide)),
    if_neg (hne (by decide)), if_neg (hne (by decide)), if_neg (hne (by decide)), if_pos h]

/-- The first character of a text tells the kind of the value. -/
theorem Json.exists_print_eq_cons {a : PyJson} (h : a.WellFormed) :
    ∃ c l, a.print = c :: l ∧ kindOf c = a.kind := by
  cases a with
  | null => exact ⟨_, _, rfl, rfl⟩
  | bool b => cases b <;> exact ⟨_, _, rfl, rfl⟩
  | str s => exact ⟨_, _, rfl, rfl⟩
  | arr items => exact ⟨_, _, rfl, rfl⟩
  | obj entries => exact ⟨_, _, rfl, rfl⟩
  | num n =>
    obtain ⟨-, c, hc, hd⟩ := (h n (List.mem_singleton.mpr rfl)).dumps
    obtain ⟨l, hl⟩ := List.head?_eq_some_iff.mp hc
    exact ⟨c, l, hl, kindOf_number hd⟩

theorem Json.kind_eq {a b : PyJson} (ha : a.WellFormed) (hb : b.WellFormed) {x y : List Char}
    (h : a.print ++ x = b.print ++ y) : a.kind = b.kind := by
  obtain ⟨c, l, hl, hc⟩ := exists_print_eq_cons ha
  obtain ⟨d, m, hm, hd⟩ := exists_print_eq_cons hb
  rw [hl, hm] at h
  rw [← hc, ← hd, (List.cons.inj h).1]

theorem stops_closeMore {close : Char} (h : isNumberChar close = false) (ls : List (List Char))
    (x : List Char) : Stops (closeMore close ls ++ x) := by
  cases ls with
  | nil => exact stops_cons h
  | cons l ls => exact stops_cons rfl

/-- The text starts, and not with `close`. -/
def Opens (close : Char) (l : List Char) : Prop := ∃ c r, l = c :: r ∧ c ≠ close

/-- No value starts with a closing bracket. -/
theorem Json.opens_print {a : PyJson} (h : a.WellFormed) : Opens ']' a.print := by
  obtain ⟨c, l, hl, hc⟩ := exists_print_eq_cons h
  refine ⟨c, l, hl, ?_⟩
  rintro rfl
  have hkind : a.kind ≤ 6 := by
    cases a with
    | bool b => cases b <;> decide
    | _ => simp [Json.kind]
  have : kindOf ']' = 7 := by decide
  omega

theorem opens_printItems {l : List PyJson} (h : ∀ n ∈ numbersItems l, n.WellFormed) :
    ∀ t ∈ printItems l, Opens ']' t := by
  induction l with
  | nil => exact fun _ ht ↦ absurd ht List.not_mem_nil
  | cons a l ih =>
    obtain ⟨ha, hl⟩ := List.forall_mem_append.mp h
    exact List.forall_mem_cons.mpr ⟨Json.opens_print ha, ih hl⟩

theorem opens_printEntries (l : List (String × PyJson)) :
    ∀ t ∈ printEntries l, Opens '\x7d' t := by
  rw [printEntries_eq]
  intro t ht
  obtain ⟨e, -, rfl⟩ := List.mem_map.mp ht
  exact ⟨_, _, rfl, by decide⟩

/-- Two bracketed lists with one text are both empty, or both have a first item. -/
theorem closeMore_of_closeWith {close : Char} {ls ms : List (List Char)} {x y : List Char}
    (hl : ∀ l ∈ ls, Opens close l) (hm : ∀ m ∈ ms, Opens close m)
    (h : closeWith close ls ++ x = closeWith close ms ++ y) :
    closeMore close ls ++ x = closeMore close ms ++ y := by
  cases ls with
  | nil =>
    cases ms with
    | nil => exact h
    | cons m ms =>
      obtain ⟨c, r, rfl, hc⟩ := hm m List.mem_cons_self
      exact absurd (List.cons.inj h).1.symm hc
  | cons l ls =>
    cases ms with
    | nil =>
      obtain ⟨c, r, rfl, hc⟩ := hl l List.mem_cons_self
      exact absurd (List.cons.inj h).1 hc
    | cons m ms => exact congrArg (',' :: ·) h

mutual

/-- A text that starts with the text of a value determines the value and the rest. -/
theorem Json.print_append_inj {x y : List Char} (a b : PyJson) (ha : a.WellFormed)
    (hb : b.WellFormed) (hx : Stops x) (hy : Stops y) (h : a.print ++ x = b.print ++ y) :
    a = b ∧ x = y := by
  have hkind := Json.kind_eq ha hb h
  match a, b with
  | .null, .null => exact ⟨rfl, List.append_cancel_left h⟩
  | .bool true, .bool true => exact ⟨rfl, List.append_cancel_left h⟩
  | .bool false, .bool false => exact ⟨rfl, List.append_cancel_left h⟩
  | .num m, .num n =>
    have hm : m.WellFormed := ha m (List.mem_singleton.mpr rfl)
    have hn : n.WellFormed := hb n (List.mem_singleton.mpr rfl)
    obtain ⟨hmn, hxy⟩ := number_append_inj hm.dumps.1 hn.dumps.1 hx hy h
    exact ⟨congrArg Json.num (PyNumber.dumps_injOn hm hn (String.toList_injective hmn)), hxy⟩
  | .str s, .str t =>
    obtain ⟨hst, hxy⟩ := quotedChars_append_inj (List.cons.inj h).2
    exact ⟨congrArg Json.str (String.toList_injective hst), hxy⟩
  | .arr as, .arr bs =>
    have hmore := closeMore_of_closeWith (opens_printItems ha) (opens_printItems hb)
      (List.cons.inj h).2
    obtain ⟨rfl, hxy⟩ := printItems_append_inj as bs ha hb hmore
    exact ⟨rfl, hxy⟩
  | .obj as, .obj bs =>
    have hmore := closeMore_of_closeWith (opens_printEntries as) (opens_printEntries bs)
      (List.cons.inj h).2
    obtain ⟨rfl, hxy⟩ := printEntries_append_inj as bs ha hb hmore
    exact ⟨rfl, hxy⟩

theorem printItems_append_inj {x y : List Char} (as bs : List PyJson)
    (ha : ∀ n ∈ numbersItems as, n.WellFormed) (hb : ∀ n ∈ numbersItems bs, n.WellFormed)
    (h : closeMore ']' (printItems as) ++ x = closeMore ']' (printItems bs) ++ y) :
    as = bs ∧ x = y := by
  match as, bs with
  | [], [] => exact ⟨rfl, (List.cons.inj h).2⟩
  | [], _ :: _ | _ :: _, [] => exact absurd (List.cons.inj h).1 (by decide)
  | a :: as, b :: bs =>
    obtain ⟨hwa, has⟩ := List.forall_mem_append.mp ha
    obtain ⟨hwb, hbs⟩ := List.forall_mem_append.mp hb
    have htail := (List.cons.inj h).2
    simp only [List.append_eq, List.append_assoc] at htail
    obtain ⟨rfl, hmore⟩ := Json.print_append_inj a b hwa hwb (stops_closeMore rfl _ _)
      (stops_closeMore rfl _ _) htail
    obtain ⟨rfl, hxy⟩ := printItems_append_inj as bs has hbs hmore
    exact ⟨rfl, hxy⟩

theorem printEntries_append_inj {x y : List Char} (as bs : List (String × PyJson))
    (ha : ∀ n ∈ numbersEntries as, n.WellFormed) (hb : ∀ n ∈ numbersEntries bs, n.WellFormed)
    (h : closeMore '\x7d' (printEntries as) ++ x = closeMore '\x7d' (printEntries bs) ++ y) :
    as = bs ∧ x = y := by
  match as, bs with
  | [], [] => exact ⟨rfl, (List.cons.inj h).2⟩
  | [], _ :: _ | _ :: _, [] => exact absurd (List.cons.inj h).1 (by decide)
  | (k, a) :: as, (l, b) :: bs =>
    obtain ⟨hwa, has⟩ := List.forall_mem_append.mp ha
    obtain ⟨hwb, hbs⟩ := List.forall_mem_append.mp hb
    have htail := (List.cons.inj (List.cons.inj h).2).2
    simp only [List.append_eq, List.append_assoc, List.cons_append] at htail
    obtain ⟨hkey, hvalue⟩ := quotedChars_append_inj htail
    obtain rfl := String.toList_injective hkey
    obtain ⟨rfl, hmore⟩ := Json.print_append_inj a b hwa hwb (stops_closeMore rfl _ _)
      (stops_closeMore rfl _ _) (List.cons.inj hvalue).2
    obtain ⟨rfl, hxy⟩ := printEntries_append_inj as bs has hbs hmore
    exact ⟨rfl, hxy⟩

end

/-! ## Objects -/

namespace Dict

/-- All numbers of the object are well formed. -/
def WellFormed (d : Dict) : Prop := (Json.obj d.rows).WellFormed

/-- The object with its keys in order, at every level. -/
def sorted (d : Dict) : PyJson := (Json.obj d.rows).sorted

/-- Equal as `jsonb`, and some number is written differently. -/
def Respelled (d e : Dict) : Prop := d.toJsonb = e.toJsonb ∧ d.sorted.numbers ≠ e.sorted.numbers

variable {d e : Dict}

/-- The canonical text is the tree with its keys in order, printed. -/
theorem toList_canonical (d : Dict) : (canonical d).toList = d.sorted.print :=
  (Json.obj d.rows).toList_dumps

theorem canonical_of_sorted (h : d.sorted = e.sorted) : canonical d = canonical e :=
  String.toList_injective (by rw [toList_canonical, toList_canonical, h])

/-- Two objects have one canonical text exactly when they are one tree up to the order of keys. -/
theorem canonical_eq_iff (hd : d.WellFormed) (he : e.WellFormed) :
    canonical d = canonical e ↔ d.sorted = e.sorted := by
  constructor
  · intro h
    have hprint : d.sorted.print ++ [] = e.sorted.print ++ [] := by
      rw [← toList_canonical, ← toList_canonical, h]
    exact (Json.print_append_inj _ _ (fun n hn ↦ hd n ((Json.mem_numbers_sorted _).mp hn))
      (fun n hn ↦ he n ((Json.mem_numbers_sorted _).mp hn)) (by rintro _ ⟨⟩) (by rintro _ ⟨⟩)
      hprint).1
  · exact canonical_of_sorted

/-- They are equal as `jsonb` exactly when they are one tree up to the order of keys and the way
numbers are written. -/
theorem toJsonb_eq_iff :
    d.toJsonb = e.toJsonb ↔ d.sorted.mapNum PyNumber.value = e.sorted.mapNum PyNumber.value := by
  have reading (d : Dict) : d.toJsonb = d.sorted.mapNum PyNumber.value :=
    (Json.obj d.rows).toJsonb_eq
  rw [reading, reading]

/-- One canonical text is one `jsonb` value. -/
theorem toJsonb_eq_of_canonical (hd : d.WellFormed) (he : e.WellFormed)
    (h : canonical d = canonical e) : d.toJsonb = e.toJsonb :=
  toJsonb_eq_iff.mpr (congrArg _ ((canonical_eq_iff hd he).mp h))

/-- The two equalities agree on a pair of objects exactly when the pair is not respelled. -/
theorem canonical_iff_toJsonb (hd : d.WellFormed) (he : e.WellFormed) :
    (canonical d = canonical e ↔ d.toJsonb = e.toJsonb) ↔ ¬ d.Respelled e := by
  constructor
  · rintro h ⟨hjsonb, hnumbers⟩
    exact hnumbers (congrArg Json.numbers ((canonical_eq_iff hd he).mp (h.mpr hjsonb)))
  · intro h
    refine ⟨toJsonb_eq_of_canonical hd he, fun hjsonb ↦ (canonical_eq_iff hd he).mpr ?_⟩
    have hnumbers : d.sorted.numbers = e.sorted.numbers := not_not.mp fun hne ↦ h ⟨hjsonb, hne⟩
    exact (Json.eq_of_mapNum _ _ (toJsonb_eq_iff.mp hjsonb) (congrArg (· ++ []) hnumbers)).1

end Dict

end Haki.Data
