import Mathlib.Data.List.Basic

/-!
# Query strings

`urllib.parse.parse_qsl`.  Both readings of a query string are here: `parse_qs`
drops the fields without a value, `QueryParams` keeps them and takes the last
field of a name.  What percent signs stand for is a parameter.
-/

namespace Haki.Data

section

variable (unquote : String → String)

/-- `partition("=")`: the name and the value of a field. -/
def nameValue (field : List Char) : String × String :=
  (String.ofList (field.takeWhile (· ≠ '=')), String.ofList (field.dropWhile (· ≠ '=')).tail)

/-- `parse_qsl`. -/
def parseQsl (keepBlank : Bool) (query : String) : List (String × String) :=
  ((((query.toList.splitOn '&').filter fun field ↦ !field.isEmpty).map nameValue).filter
    fun field ↦ keepBlank || field.2 ≠ "").map (Prod.map unquote unquote)

/-- `parse_qs(query).get(name, [])`. -/
def queryValues (query name : String) : List String :=
  ((parseQsl unquote false query).filter fun field ↦ field.1 = name).map Prod.snd

/-- `QueryParams(query).get(name)`. -/
def queryParam (query name : String) : Option String :=
  (((parseQsl unquote true query).filter fun field ↦ field.1 = name).map Prod.snd).getLast?

end

variable {unquote : String → String}

/-- Both readings agree on the fields with a value. -/
theorem mem_parseQsl {query : String} {field : String × String} :
    field ∈ parseQsl unquote false query ↔ ∃ raw : String × String,
      raw.2 ≠ "" ∧ Prod.map unquote unquote raw = field ∧
        raw ∈ ((query.toList.splitOn '&').filter fun field ↦ !field.isEmpty).map nameValue := by
  simp only [parseQsl, Bool.false_or, List.mem_map, List.mem_filter, decide_eq_true_eq]
  exact ⟨fun ⟨raw, ⟨hraw, hne⟩, heq⟩ ↦ ⟨raw, hne, heq, hraw⟩,
    fun ⟨raw, hne, heq, hraw⟩ ↦ ⟨raw, ⟨hraw, hne⟩, heq⟩⟩

/-- A parameter that is not blank is one of the values of its name. -/
theorem mem_queryValues_of_queryParam (hunquote : unquote "" = "") {query name value : String}
    (h : queryParam unquote query name = some value) (hne : value ≠ "") :
    value ∈ queryValues unquote query name := by
  obtain ⟨field, hfield, rfl⟩ := List.mem_map.mp (List.mem_of_getLast? h)
  obtain ⟨hfield, hname⟩ := List.mem_filter.mp hfield
  obtain ⟨raw, hraw, rfl⟩ := List.mem_map.mp hfield
  refine List.mem_map.mpr ⟨_, List.mem_filter.mpr ⟨mem_parseQsl.mpr ⟨raw, ?_, rfl, ?_⟩, hname⟩, rfl⟩
  · intro hblank
    exact hne ((congrArg unquote hblank).trans hunquote)
  · exact (List.mem_filter.mp hraw).1

/-- The last of two values counts, and blank ones do. -/
example : queryParam id "project_id=a&x&project_id=" "project_id" = some "" ∧
    queryValues id "project_id=a&x&project_id=" "project_id" = ["a"] := by
  decide

end Haki.Data
