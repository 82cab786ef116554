import Mathlib.Data.List.Basic

/-! # Documents

A Discogs document as the loader holds it: the value of a JSON text.  Documents
are not schema-checked, so every reader below is total, and answers for a value
of the wrong shape what the source's `isinstance` test makes of it. -/

namespace Tableinator

/-- A JSON value.  Python's `int` and `float` are apart, as `isinstance` tells them
    apart; a float is its decimal mantissa and exponent. -/
inductive Json where
  | null
  | bool (b : Bool)
  | int (n : Int)
  | float (mantissa exponent : Int)
  | str (s : String)
  | arr (items : List Json)
  | obj (fields : List (String × Json))
  deriving Repr, Inhabited

/-- A mapping: the payload of one event, or one element of its arrays. -/
abbrev Document := List (String × Json)

/-- `data.get(key)`: a missing key reads as `None`. -/
def Document.get (data : Document) (key : String) : Json := (data.lookup key).getD .null

namespace Json

/-- Python's truth value. -/
def truthy : Json → Bool
  | .null => false
  | .bool b => b
  | .int n => n ≠ 0
  | .float mantissa _ => mantissa ≠ 0
  | .str s => s ≠ ""
  | .arr items => !items.isEmpty
  | .obj fields => !fields.isEmpty

/-- The value when `isinstance(value, str)`. -/
def str? : Json → Option String
  | .str s => some s
  | _ => none

/-- The value when `isinstance(value, dict)`. -/
def mapping? : Json → Option Document
  | .obj fields => some fields
  | _ => none

/-- The value when `isinstance(value, list)`, else nothing to iterate. -/
def items : Json → List Json
  | .arr items => items
  | _ => []

/-- `data -> key` of a stored document; every value but an object has no fields. -/
def field (value : Json) (key : String) : Json :=
  match value with
  | .obj fields => Document.get fields key
  | _ => .null

/-- `jsonb_typeof(value) = 'array' AND jsonb_array_length(value) > 0`. -/
def nonEmptyArray (value : Json) : Bool := !value.items.isEmpty

end Json

/-- `_elements`: the mapping elements of a JSON array, skipping anything else. -/
def elements (value : Json) : List Document := value.items.filterMap Json.mapping?

theorem elements_eq_nil {value : Json} (h : value.nonEmptyArray = false) : elements value = [] := by
  have hitems : value.items = [] := by simpa [Json.nonEmptyArray] using h
  simp [elements, hitems]

end Tableinator
