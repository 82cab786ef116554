import Mathlib.Data.Finset.Basic

/-! # The catalog contract

The four entity types of the catalog-events contract.  Each has its own fanout
queue, its own entity table and its own terminal signal. -/

namespace Tableinator

/-- `ENTITY_TYPES` of the promoted contract. -/
inductive DataType where
  | artists
  | labels
  | masters
  | releases
  deriving DecidableEq, Repr

/-- `DATA_TYPES`, the set every durable call passes as `required_types`. -/
def dataTypes : Finset DataType := {.artists, .labels, .masters, .releases}

@[simp] theorem mem_dataTypes (t : DataType) : t ∈ dataTypes := by cases t <;> decide

/-- Timestamps, in whole seconds on the database's clock. -/
abbrev Time := Nat

end Tableinator
