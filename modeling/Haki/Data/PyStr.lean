import Haki.Data.Json

/-!
# Python's `str` of a decoded JSON value

`str` of a string is the string.  Of anything else it is the `repr`, which
writes strings between single quotes when it can.  Which characters are
printable is a table of Python's, and a parameter here.
-/

namespace Haki.Data

/-- The digits of a number in base 16, in a field of fixed width. -/
def hexDigits : Nat → Nat → List Char
  | 0, _ => []
  | width + 1, n => hexDigits width (n / 16) ++ [Nat.digitChar (n % 16)]

/-- The quotes `repr` writes a string between: double ones to spare a single one. -/
def reprQuote (s : List Char) : Char :=
  if Char.ofNat 39 ∈ s ∧ '"' ∉ s then '"' else Char.ofNat 39

section

variable (isPrintable : Char → Bool)

/-- A character of a quoted string. -/
def reprChar (quote c : Char) : List Char :=
  if c = quote ∨ c = '\\' then ['\\', c]
  else if c = '\t' then ['\\', 't']
  else if c = '\n' then ['\\', 'n']
  else if c = '\r' then ['\\', 'r']
  else if c.toNat < 32 ∨ c.toNat = 127 then '\\' :: 'x' :: hexDigits 2 c.toNat
  else if c.toNat < 127 ∨ isPrintable c then [c]
  else if c.toNat < 256 then '\\' :: 'x' :: hexDigits 2 c.toNat
  else if c.toNat < 65536 then '\\' :: 'u' :: hexDigits 4 c.toNat
  else '\\' :: 'U' :: hexDigits 8 c.toNat

/-- `repr` of a string. -/
def reprStr (s : String) : String :=
  let quote := reprQuote s.toList
  String.ofList (quote :: s.toList.flatMap (reprChar isPrintable quote) ++ [quote])

/-- `repr` of a number. -/
def PyNumber.repr : PyNumber → String
  | .int n => toString n
  | .float repr => repr

mutual

/-- `repr` of a decoded value. -/
def Json.pyRepr : PyJson → String
  | .null => "None"
  | .bool b => if b then "True" else "False"
  | .num n => n.repr
  | .str s => reprStr isPrintable s
  | .arr items => "[" ++ ", ".intercalate (pyReprItems items) ++ "]"
  | .obj entries => "\x7b" ++ ", ".intercalate (pyReprEntries entries) ++ "\x7d"

def pyReprItems : List PyJson → List String
  | [] => []
  | a :: as => a.pyRepr :: pyReprItems as

def pyReprEntries : List (String × PyJson) → List String
  | [] => []
  | (k, a) :: as => (reprStr isPrintable k ++ ": " ++ a.pyRepr) :: pyReprEntries as

end

/-- `str` of a decoded value. -/
def Json.pyStr : PyJson → String
  | .str s => s
  | a => a.pyRepr isPrintable

@[simp] theorem Json.pyStr_str (s : String) : Json.pyStr isPrintable (.str s) = s := rfl

/-- A quote decides how a string is quoted. -/
example : Json.pyStr (fun _ ↦ true) (.obj [("it's", .arr [.bool true, .null, .str "a\n"])]) =
    "\x7b\"it's\": [True, None, 'a\\n']\x7d" := by
  decide +kernel

end

end Haki.Data
