import Haki.Data.Table
import Mathlib.Data.List.Sort
import Mathlib.Data.Rat.Defs
import Mathlib.Algebra.Order.Ring.Rat

/-!
# JSON objects, their canonical text and their `jsonb` reading

Fact values and qualifiers are JSON objects.  The write path compares them by
`_canonical`, the text `json.dumps` writes with sorted keys; the database
compares them as `jsonb`, where key order is irrelevant and numbers are equal
when they are numerically equal.  The two readings are kept apart here: `1`
and `1.0` have different texts and the same `jsonb`.

A `float` is represented by its `repr`, which is both what `json.dumps` writes
and what determines the number.  An object is a keyed table, so a duplicate
key cannot be built.
-/

namespace Haki.Data

/-- A number of a decoded JSON document: a Python `int`, or a `float` by its `repr`. -/
inductive PyNumber where
  | int (n : Int)
  | float (repr : String)
deriving DecidableEq, Repr

/-- JSON trees over a type of numbers. -/
inductive Json (N : Type) where
  | null
  | bool (b : Bool)
  | num (n : N)
  | str (s : String)
  | arr (items : List (Json N))
  | obj (entries : List (String × Json N))
deriving Repr

namespace Json

section DecidableEq

variable {N : Type} [DecidableEq N]

mutual

/-- Equality of trees is decidable. -/
def decEq : (a b : Json N) → Decidable (a = b)
  | .null, .null => isTrue rfl
  | .bool a, .bool b => decidable_of_iff (a = b) (by simp)
  | .num a, .num b => decidable_of_iff (a = b) (by simp)
  | .str a, .str b => decidable_of_iff (a = b) (by simp)
  | .arr a, .arr b => match decEqItems a b with
    | isTrue h => isTrue (by rw [h])
    | isFalse h => isFalse (by simpa using h)
  | .obj a, .obj b => match decEqEntries a b with
    | isTrue h => isTrue (by rw [h])
    | isFalse h => isFalse (by simpa using h)
  | .null, .bool _ | .null, .num _ | .null, .str _ | .null, .arr _ | .null, .obj _
  | .bool _, .null | .bool _, .num _ | .bool _, .str _ | .bool _, .arr _ | .bool _, .obj _
  | .num _, .null | .num _, .bool _ | .num _, .str _ | .num _, .arr _ | .num _, .obj _
  | .str _, .null | .str _, .bool _ | .str _, .num _ | .str _, .arr _ | .str _, .obj _
  | .arr _, .null | .arr _, .bool _ | .arr _, .num _ | .arr _, .str _ | .arr _, .obj _
  | .obj _, .null | .obj _, .bool _ | .obj _, .num _ | .obj _, .str _ | .obj _, .arr _ =>
    isFalse (by simp)

/-- Equality of array items is decidable. -/
def decEqItems : (as bs : List (Json N)) → Decidable (as = bs)
  | [], [] => isTrue rfl
  | [], _ :: _ | _ :: _, [] => isFalse (by simp)
  | a :: as, b :: bs => match decEq a b, decEqItems as bs with
    | isTrue h, isTrue hs => isTrue (by rw [h, hs])
    | isFalse h, _ => isFalse (by simp [h])
    | _, isFalse hs => isFalse (by simp [hs])

/-- Equality of object entries is decidable. -/
def decEqEntries : (as bs : List (String × Json N)) → Decidable (as = bs)
  | [], [] => isTrue rfl
  | [], _ :: _ | _ :: _, [] => isFalse (by simp)
  | (k, a) :: as, (l, b) :: bs =>
    match (inferInstance : Decidable (k = l)), decEq a b, decEqEntries as bs with
    | isTrue hk, isTrue h, isTrue hs => isTrue (by rw [hk, h, hs])
    | isFalse hk, _, _ => isFalse (by simp [hk])
    | _, isFalse h, _ => isFalse (by simp [h])
    | _, _, isFalse hs => isFalse (by simp [hs])

end

instance : DecidableEq (Json N) := decEq

end DecidableEq

end Json

/-- A decoded JSON value. -/
abbrev PyJson := Json PyNumber

instance {β : Type} : Keyed (String × β) String := ⟨Prod.fst⟩

/-- A decoded JSON object: a Python `dict` with string keys. -/
abbrev Dict := Table (String × PyJson)

/-! ## `json.dumps` -/

/-- The escapes `json.dumps(..., ensure_ascii=False)` writes. -/
def escapeChar (c : Char) : String :=
  if c = '"' then "\\\""
  else if c = '\\' then "\\\\"
  else if c = '\n' then "\\n"
  else if c = '\r' then "\\r"
  else if c = '\t' then "\\t"
  else if c.toNat = 8 then "\\b"
  else if c.toNat = 12 then "\\f"
  else if c.toNat < 32 then
    "\\u00" ++ String.ofList [Nat.digitChar (c.toNat / 16), Nat.digitChar (c.toNat % 16)]
  else String.ofList [c]

/-- A JSON string literal. -/
def dumpsStr (s : String) : String :=
  "\"" ++ s.toList.foldr (fun c text ↦ escapeChar c ++ text) "\""

def PyNumber.dumps : PyNumber → String
  | .int n => toString n
  | .float repr => repr

/-- Rendered entries in key order. -/
def sortByKey {β : Type} (entries : List (String × β)) : List (String × β) :=
  entries.insertionSort fun a b ↦ ¬ b.1 < a.1

/-- The `separators` argument of `json.dumps`. -/
structure Separators where
  /-- Between two items or entries. -/
  item : String
  /-- Between a key and its value. -/
  entry : String

/-- The separators `json.dumps` uses when none are given. -/
def Separators.default : Separators := ⟨", ", ": "⟩

/-- `separators=(",", ":")`. -/
def Separators.compact : Separators := ⟨",", ":"⟩

variable (sep : Separators)

/-- A JSON object literal from rendered values, `sort_keys=True`. -/
def dumpsObject (entries : List (String × String)) : String :=
  "\x7b" ++ sep.item.intercalate ((sortByKey entries).map fun e ↦ dumpsStr e.1 ++ sep.entry ++ e.2)
    ++ "\x7d"

mutual

/-- `json.dumps(value, sort_keys=True, ensure_ascii=False, separators=sep)`. -/
def Json.dumps : PyJson → String
  | .null => "null"
  | .bool b => if b then "true" else "false"
  | .num n => n.dumps
  | .str s => dumpsStr s
  | .arr items => "[" ++ sep.item.intercalate (dumpsItems items) ++ "]"
  | .obj entries => dumpsObject sep (dumpsEntries entries)

def dumpsItems : List PyJson → List String
  | [] => []
  | a :: as => a.dumps :: dumpsItems as

def dumpsEntries : List (String × PyJson) → List (String × String)
  | [] => []
  | (k, a) :: as => (k, a.dumps) :: dumpsEntries as

end

/-- `json.dumps` of an object. -/
def Dict.dumps (value : Dict) : String := dumpsObject sep (dumpsEntries sep value.rows)

/-- `_canonical`: the text two values are compared by. -/
def canonical (value : Dict) : String := value.dumps .compact

/-! ## `jsonb` -/

/-- The natural number a run of decimal digits denotes. -/
def digitsValue (cs : List Char) : Nat :=
  cs.foldl (fun n c ↦ 10 * n + (c.toNat - 48)) 0

/-- The rational a `float` literal such as `-1.5e+20` denotes. -/
def floatValue (repr : String) : ℚ :=
  let unsigned := repr.toList.dropWhile (· = '-')
  let mantissa := unsigned.takeWhile (· ≠ 'e')
  let exponent := (unsigned.dropWhile (· ≠ 'e')).drop 1
  let whole := mantissa.takeWhile (· ≠ '.')
  let fraction := (mantissa.dropWhile (· ≠ '.')).drop 1
  let magnitude : ℚ := digitsValue (whole ++ fraction) / (10 ^ fraction.length : Nat)
  let scale : Nat := 10 ^ digitsValue (exponent.dropWhile fun c ↦ c = '-' ∨ c = '+')
  let scaled := if exponent.head? = some '-' then magnitude / scale else magnitude * scale
  if repr.toList.head? = some '-' then -scaled else scaled

/-- The numeric value `jsonb` compares. -/
def PyNumber.value : PyNumber → ℚ
  | .int n => n
  | .float repr => floatValue repr

mutual

/-- The `jsonb` reading of a value: numbers by value, keys in order. -/
def Json.toJsonb : PyJson → Json ℚ
  | .null => .null
  | .bool b => .bool b
  | .num n => .num n.value
  | .str s => .str s
  | .arr items => .arr (toJsonbItems items)
  | .obj entries => .obj (sortByKey (toJsonbEntries entries))

def toJsonbItems : List PyJson → List (Json ℚ)
  | [] => []
  | a :: as => a.toJsonb :: toJsonbItems as

def toJsonbEntries : List (String × PyJson) → List (String × Json ℚ)
  | [] => []
  | (k, a) :: as => (k, a.toJsonb) :: toJsonbEntries as

end

/-- An object as the column stores it. -/
def Dict.toJsonb (d : Dict) : Json ℚ := .obj (sortByKey (toJsonbEntries d.rows))

/-- The two readings differ on numbers: `{"n": 1}` and `{"n": 1.0}`. -/
example :
    canonical (Table.empty.insert ("n", .num (.int 1))) ≠
        canonical (Table.empty.insert ("n", .num (.float "1.0"))) ∧
      Dict.toJsonb (Table.empty.insert ("n", .num (.int 1))) =
        Dict.toJsonb (Table.empty.insert ("n", .num (.float "1.0"))) := by
  decide +kernel

/-! ## Objects as Python dictionaries -/

namespace Dict

/-- `d[k]`, or `none` when the key is missing. -/
def value? (d : Dict) (k : String) : Option PyJson := (d.get? k).map Prod.snd

/-- `{**d, k: v}`. -/
def set (d : Dict) (k : String) (v : PyJson) : Dict := d.upsert (k, v)

/-- The entries whose value is not null. -/
def dropNulls (d : Dict) : Dict := d.filter fun e ↦ decide (e.2 ≠ .null)

theorem value?_set (d : Dict) (k : String) (v : PyJson) (l : String) :
    (d.set k v).value? l = if k = l then some v else d.value? l := by
  rw [value?, set, Table.get?_upsert]
  change Option.map _ (if k = l then _ else _) = _
  split <;> rfl

/-- A pair of a merge comes from the right side, or from the left side under a
key the right side does not bind. -/
theorem mem_merge {d e : Dict} {k : String} {v : PyJson} (h : (k, v) ∈ d.merge e) :
    (k, v) ∈ e ∨ ((k, v) ∈ d ∧ e.value? k = none) := by
  rcases Table.mem_merge h with h | ⟨h, hn⟩
  · exact .inl h
  · exact .inr ⟨h, by rw [value?]; exact congrArg (Option.map Prod.snd) hn⟩

theorem mem_dropNulls {d : Dict} {e : String × PyJson} (h : e ∈ d.dropNulls) : e ∈ d :=
  (Table.mem_filter.mp h).1

end Dict

end Haki.Data
