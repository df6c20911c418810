import Haki.Data.Quoting
import Mathlib.Logic.Function.Iterate

/-!
# The lexical query

`lexemes_to_or_tsquery` writes the lexemes of a question as one query, each
between quotes in which a quote and a backslash are doubled, and PostgreSQL
reads it.  Of PostgreSQL's grammar this is the part with quoted lexemes: blanks,
`|`, `&`, `!` and parentheses around them, with the usual precedence.
-/

namespace Haki

open Data

/-- The quote around a lexeme. -/
def apostrophe : Char := Char.ofNat 39

/-- `_TSQUERY_ESCAPES`. -/
def tsqueryEscapes (c : Char) : List Char :=
  if c = apostrophe then [apostrophe, apostrophe] else if c = '\\' then ['\\', '\\'] else [c]

/-- `lexemes_to_or_tsquery`. -/
def lexemesToOrTsquery (lexemes : List String) : Option String :=
  if lexemes = [] then none
  else some (" | ".intercalate (lexemes.map fun lexeme ↦
    "'" ++ String.ofList (lexeme.toList.flatMap tsqueryEscapes) ++ "'"))

/-! ## The query PostgreSQL reads -/

inductive Tsquery where
  | lexeme (word : String)
  | not (q : Tsquery)
  | and (p q : Tsquery)
  | or (p q : Tsquery)
deriving DecidableEq, Repr

inductive TsqueryToken where
  | lexeme (word : String)
  | not
  | and
  | or
  | openParen
  | closeParen
deriving DecidableEq, Repr

/-- What may stand outside of quotes. -/
def tsqueryOperator (c : Char) : Option (List TsqueryToken) :=
  match c with
  | ' ' => some []
  | '|' => some [.or]
  | '&' => some [.and]
  | '!' => some [.not]
  | '(' => some [.openParen]
  | ')' => some [.closeParen]
  | _ => none

/-- The grammar of quoted lexemes.  An empty lexeme is a syntax error. -/
def tsqueryQuoting : Quoting Char TsqueryToken where
  quote := apostrophe
  escape := ['\\']
  outside := tsqueryOperator
  word w := if w = [] then none else some (.lexeme (String.ofList w))

/-- What waits for an operand: the disjuncts before it, the conjuncts of its disjunct before it,
and its negations. -/
structure Tsquery.Pending where
  disjuncts : Option Tsquery := none
  conjuncts : Option Tsquery := none
  nots : Nat := 0

namespace Tsquery

/-- The operand under its negations. -/
def Pending.operand (p : Pending) (q : Tsquery) : Tsquery := Tsquery.not^[p.nots] q

/-- The disjunct that ends with an operand. -/
def Pending.conj (p : Pending) (q : Tsquery) : Tsquery := p.conjuncts.elim q fun c ↦ c.and q

/-- The query that ends with an operand. -/
def Pending.all (p : Pending) (q : Tsquery) : Tsquery :=
  p.disjuncts.elim (p.conj q) fun d ↦ d.or (p.conj q)

/-- A reader of tokens before an operand or after one, inside some parentheses. -/
inductive Reader where
  | before (top : Pending) (outer : List Pending)
  | after (top : Pending) (q : Tsquery) (outer : List Pending)

/-- Read a token. -/
def Reader.step : Reader → TsqueryToken → Option Reader
  | before p outer, .lexeme w => some (after p (p.operand (.lexeme w)) outer)
  | before p outer, .not => some (before { p with nots := p.nots + 1 } outer)
  | before p outer, .openParen => some (before {} (p :: outer))
  | after p q outer, .and => some (before { p with conjuncts := some (p.conj q), nots := 0 } outer)
  | after p q outer, .or => some (before { disjuncts := some (p.all q) } outer)
  | after p q (p' :: outer), .closeParen => some (after p' (p'.operand (p.all q)) outer)
  | _, _ => none

/-- The query of the tokens that were read. -/
def Reader.finish : Reader → Option Tsquery
  | after p q [] => some (p.all q)
  | _ => none

/-- The query of a list of tokens. -/
def ofTokens (tokens : List TsqueryToken) : Option Tsquery :=
  (tokens.foldlM Reader.step (.before {} [])).bind Reader.finish

/-- `text::tsquery`. -/
def parse (text : String) : Option Tsquery :=
  (tsqueryQuoting.read .outside text.toList).bind ofTokens

/-- Precedence, parentheses, and a quote and an operator inside a lexeme. -/
example : parse "'a' | !('b' & 'it''s') & 'c | d'" =
    some (.or (.lexeme "a") (.and (.not (.and (.lexeme "b") (.lexeme "it's"))) (.lexeme "c | d"))) := by
  decide +kernel

end Tsquery

end Haki
