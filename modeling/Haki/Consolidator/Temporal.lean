import Haki.Consolidator.Ranges
import Haki.Context.Chunking
import Haki.Data.Pattern
import Haki.Models

/-!
# When a fact is about

`temporal.py`: the ISO dates of a value, the relative expressions of its texts
with the range they name on the day of the event, and the one instant the fact
is about, if there is one.  Texts are lists of characters, and every function
says what it raises.

Of Python's tables of characters outside of ASCII the ones that are used are
parameters, except that of white space.
-/

namespace Haki

open Control Data

/-- What depends on the interpreter. -/
structure Python where
  /-- The digits `\\d` matches, with the value `int` gives them. -/
  decimal : Char → Option (Fin 10)
  isAlnum : Char → Bool
  /-- Whether `datetime.fromisoformat` takes a fraction that follows the minutes for one of a
  second.  It is documented to be refused, and is accepted by the implementation in C. -/
  minuteFraction : Bool

/-! ## Instants -/

/-- The microseconds of a day. -/
def dayMicros : Int := 86400000000

/-- The ordinal of the day on which timestamps are 0. -/
def epochOrdinal : Int := 719163

/-- An aware `datetime`: its date and the microseconds since midnight there, and how far the clock
there is ahead of UTC. -/
structure AwareTime where
  date : Date
  time : Int
  offset : Int

/-- `dt.astimezone(timezone.utc).date()`. -/
def AwareTime.utcDate (dt : AwareTime) : Except DateError Date :=
  dt.date.plusDays ((dt.time - dt.offset) / dayMicros)

/-- `dt.astimezone(timezone.utc)`. -/
def AwareTime.toUtc (dt : AwareTime) : Except DateError Timestamp := do
  let date ← dt.utcDate
  return (date.ordinal - epochOrdinal) * dayMicros + (dt.time - dt.offset) % dayMicros

namespace Python

/-- `\\d`. -/
def isDecimal (py : Python) (c : Char) : Bool := (py.decimal c).isSome

/-- Characters of a word, for `\\b`. -/
def isWord (py : Python) (c : Char) : Bool := py.isAlnum c || c = '_'

end Python

/-! ## ISO dates -/

/-- One character and no other. -/
def exactly (c : Char) : Pattern Char := .one fun d ↦ d = c

/-- `\\d{n}`. -/
def decimals (py : Python) (n : Nat) : Pattern Char := .many py.isDecimal n (some n)

/-- `$`, in a text without white space at its end. -/
def endOfText : Pattern Char := .test fun _ after ↦ after.isNone

/-- `_ISO_DATE`, with the digits of the fraction as an eighth group. -/
def isoDateRe (py : Python) : Pattern Char :=
  .chain [.group 1 (decimals py 4), exactly '-', .group 2 (decimals py 2), exactly '-',
    .group 3 (decimals py 2),
    .opt (.chain [.one fun c ↦ c = 'T' ∨ c = ' ', .group 4 (decimals py 2), exactly ':',
      .group 5 (decimals py 2),
      .opt (.chain [exactly ':', .group 6 (decimals py 2)]),
      .opt (.chain [exactly '.', .group 8 (.many py.isDecimal 1 none)]),
      .opt (.group 7 (.alt (exactly 'Z')
        (.chain [.one fun c ↦ c = '+' ∨ c = '-', decimals py 2, .opt (exactly ':'),
          decimals py 2])))]),
    endOfText]

/-- The number of some digits in ASCII, which are the only ones `fromisoformat` reads. -/
def asciiNumber (ds : List Char) : Option Nat :=
  if ds ≠ [] ∧ ds.all Char.isDigit then some (ds.foldl (fun n c ↦ 10 * n + (c.toNat - 48)) 0)
  else none

/-- `date.fromisoformat` of the date. -/
def isoDate (g : Groups Char) : Option Date := do
  date? (← asciiNumber (g.text 1)) (← asciiNumber (g.text 2)) (← asciiNumber (g.text 3))

/-- The microseconds of a fraction.  Before an offset the digits after the sixth are not read. -/
def isoFraction (fraction offset : List Char) : Option Nat :=
  if fraction = [] then some 0
  else if offset = [] ∧ ¬ fraction.all Char.isDigit then none
  else (asciiNumber (fraction.take 6)).map fun n ↦ n * 10 ^ (6 - (fraction.take 6).length)

/-- The microseconds of an offset, which is below a day.  Without one it is UTC. -/
def isoOffset : List Char → Option Int
  | [] => some 0
  | 'Z' :: _ => some 0
  | sign :: rest => do
    let digits := rest.filter fun c ↦ c ≠ ':'
    let minutes := 60 * (← asciiNumber (digits.take 2)) + (← asciiNumber (digits.drop 2))
    if 1440 ≤ minutes then none
    else some ((if sign = '-' then -1 else 1) * (minutes * 60000000))

/-- `datetime.fromisoformat` of a text that `_ISO_DATE` matches, `none` for a `ValueError`. -/
def isoDateTime (py : Python) (g : Groups Char) : Option AwareTime := do
  let date ← isoDate g
  if g.text 4 = [] then return ⟨date, 0, 0⟩
  let hour ← asciiNumber (g.text 4)
  let minute ← asciiNumber (g.text 5)
  let second ← if g.text 6 = [] then some 0 else asciiNumber (g.text 6)
  let micros ← isoFraction (g.text 8) (g.text 7)
  let offset ← isoOffset (g.text 7)
  if 24 ≤ hour ∨ 60 ≤ minute ∨ 60 ≤ second then none
  else if g.text 6 = [] ∧ g.text 8 ≠ [] ∧ ¬ py.minuteFraction then none
  else return ⟨date, (hour * 60 + minute) * 60000000 + second * 1000000 + micros, offset⟩

/-- What `parse_iso_instant` parses, before it converts it to UTC. -/
def isoTime (py : Python) (raw : List Char) : Option AwareTime :=
  ((isoDateRe py).matchStart (strip isSpace raw)).bind fun g ↦
    (isoDateTime py g).or ((isoDate g).map fun date ↦ ⟨date, 0, 0⟩)

/-- `parse_iso_instant`. -/
def parseIsoInstant (py : Python) (raw : String) : Except DateError (Option Timestamp) :=
  match isoTime py raw.toList with
  | none => .ok none
  | some parsed => parsed.toUtc.map some

mutual

/-- `_dates_in`. -/
def datesIn (py : Python) : PyJson → Except DateError (List Timestamp)
  | .obj entries => datesInEntries py entries
  | .arr items => datesInItems py items
  | .str s => do return (← parseIsoInstant py s).toList
  | .null | .bool _ | .num _ => .ok []

def datesInEntries (py : Python) : List (String × PyJson) → Except DateError (List Timestamp)
  | [] => .ok []
  | (_, item) :: entries => do return (← datesIn py item) ++ (← datesInEntries py entries)

def datesInItems (py : Python) : List PyJson → Except DateError (List Timestamp)
  | [] => .ok []
  | item :: items => do return (← datesIn py item) ++ (← datesInItems py items)

end

/-! ## Relative expressions -/

/-- `_RELATIVE_PHRASES`. -/
def relativePhrases : List (String × CalendarUnit × Int) :=
  [("yesterday", .day, -1), ("today", .day, 0), ("tonight", .day, 0), ("tomorrow", .day, 1),
    ("last week", .week, -1), ("this week", .week, 0), ("next week", .week, 1),
    ("last month", .month, -1), ("this month", .month, 0), ("next month", .month, 1),
    ("last year", .year, -1), ("this year", .year, 0), ("next year", .year, 1)]

/-- `_RELATIVE_UNITS`. -/
def relativeUnits : List (String × CalendarUnit) :=
  [("day", .day), ("week", .week), ("month", .month), ("year", .year)]

/-- The characters outside of ASCII that a letter matches under `re.IGNORECASE`. -/
def alsoMatches : Char → List Char
  | 'i' => ['\u0130', '\u0131']
  | 's' => ['\u017f']
  | 'k' => ['\u212a']
  | _ => []

/-- What a character of a pattern matches under `re.IGNORECASE`. -/
def ignoringCase (c d : Char) : Bool := d = c ∨ d = c.toUpper ∨ d ∈ alsoMatches c

/-- A text under `re.IGNORECASE`. -/
def literal (s : String) : Pattern Char := .word (s.toList.map ignoringCase)

/-- `str.lower` of a character that a letter in ASCII or a blank matches. -/
def lowerChar (c : Char) : List Char :=
  if c = '\u0130' then ['i', '\u0307'] else if c = '\u212a' then ['k'] else [c.toLower]

/-- `str.lower`. -/
def lower (s : List Char) : List Char := s.flatMap lowerChar

/-- `\\b`. -/
def wordBoundary (py : Python) : Pattern Char :=
  .test fun before after ↦ before.any py.isWord != after.any py.isWord

/-- `_PHRASE_RE`. -/
def phraseRe (py : Python) : Pattern Char :=
  let phrases := (relativePhrases.map Prod.fst).insertionSort fun a b ↦ b.length ≤ a.length
  .chain [wordBoundary py, .group 1 (.anyOf (phrases.map literal)), wordBoundary py]

/-- `_COUNTED_RE`. -/
def countedRe (py : Python) : Pattern Char :=
  let digits : Pattern Char := .many py.isDecimal 1 (some 3)
  let blanks : Pattern Char := .many isSpace 1 none
  let unit : Pattern Char := .anyOf (relativeUnits.map fun u ↦ literal u.1)
  .chain [wordBoundary py,
    .alt (.chain [.group 1 digits, blanks, .group 2 unit, .opt (literal "s"), blanks, literal "ago"])
      (.chain [literal "in", blanks, .group 3 digits, blanks, .group 4 unit, .opt (literal "s")]),
    wordBoundary py]

/-- `_RELATIVE_PHRASES[phrase.lower()]`. -/
def phrasePair (g : Groups Char) : Except DateError (CalendarUnit × Int) :=
  orDateError .keyError (relativePhrases.lookup (String.ofList (lower (g.text 1))))

/-- The unit with a name, as `_range_for` tells them apart. -/
def unitNamed (name : List Char) : CalendarUnit :=
  (relativeUnits.lookup (String.ofList name)).getD .year

/-- `int` of some digits. -/
def intOf (py : Python) (ds : List Char) : Except DateError Int :=
  if ds = [] then .error .valueError
  else ds.foldlM (fun n c ↦ orDateError .valueError
    ((py.decimal c).map fun d ↦ 10 * n + (d.val : Int))) 0

/-- The unit and the offset of a match of `_COUNTED_RE`. -/
def countedPair (py : Python) (g : Groups Char) : Except DateError (CalendarUnit × Int) :=
  if g.text 1 ≠ [] then do return (unitNamed (lower (g.text 2)), -(← intOf py (g.text 1)))
  else do return (unitNamed (lower (g.text 4)), ← intOf py (g.text 3))

/-- What the phrases of a text add to the pairs that were found. -/
def findPairs (py : Python) (found : List (CalendarUnit × Int)) (text : List Char) :
    Except DateError (List (CalendarUnit × Int)) := do
  let found ← ((phraseRe py).findAll text).foldlM (fun found g ↦
    return found.insert (← phrasePair g)) found
  ((countedRe py).findAll text).foldlM (fun found g ↦ return found.insert (← countedPair py g)) found

/-- A number in a field of a width. -/
def padded (width n : Nat) : String := String.ofList ((toString n).toList.leftpad width '0')

/-- `date.isoformat`. -/
def Data.Date.isoformat (d : Date) : String :=
  padded 4 d.year ++ "-" ++ padded 2 d.month ++ "-" ++ padded 2 d.day

mutual

/-- `_strings_in`. -/
def stringsIn : PyJson → List String
  | .obj entries => stringsInEntries entries
  | .arr items => stringsInItems items
  | .str s => [s]
  | .null | .bool _ | .num _ => []

def stringsInEntries : List (String × PyJson) → List String
  | [] => []
  | (_, item) :: entries => stringsIn item ++ stringsInEntries entries

def stringsInItems : List PyJson → List String
  | [] => []
  | item :: items => stringsIn item ++ stringsInItems items

end

/-- The range of the one pair that was found. -/
def resolveFound (anchor : AwareTime) :
    List (CalendarUnit × Int) → Except DateError (Option TemporalRange)
  | [(unit, offset)] => do
    let (start, last) ← rangeFor (← anchor.utcDate) unit offset
    return some ⟨start.isoformat, last.isoformat⟩
  | _ => .ok none

/-- The loop over the texts, which is left as soon as there are two pairs. -/
def resolveTexts (py : Python) (anchor : AwareTime) (found : List (CalendarUnit × Int)) :
    List String → Except DateError (Option TemporalRange)
  | [] => resolveFound anchor found
  | text :: texts => do
    let found ← findPairs py found text.toList
    if 1 < found.length then return none
    resolveTexts py anchor found texts

/-- `resolve_relative_range`. -/
def resolveRelativeRange (py : Python) (value : PyJson) (anchor : Option AwareTime) :
    Except DateError (Option TemporalRange) :=
  match anchor with
  | none => .ok none
  | some anchor => resolveTexts py anchor [] (stringsIn value)

/-- `observed_at_of`. -/
def observedAtOf (py : Python) (value : PyJson) (temporalRange : Option TemporalRange) :
    Except DateError (Option Timestamp) := do
  match ← datesIn py value with
  | [date] => return some date
  | _ =>
    match temporalRange with
    | some range => parseIsoInstant py range.start
    | none => return none

end Haki
