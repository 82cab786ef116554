import Tableinator.Durable.Tables

/-! # Terminal signals

`_reconcile_legacy` and `record_durable_signal`: the transactions that accept an
extraction.  Both hold the cursor row from their first statement to commit. -/

namespace Tableinator.Durable

open Relational

/-- The loop variables of `_reconcile_legacy`, with the tables as they stand. -/
structure Reconciling where
  generation : Nat
  current : Option String
  db : RefreshDb

-- `current is not None and version < current`
def Reconciling.supersedes (st : Reconciling) (version : String) : Bool :=
  st.current.any (version < ·)

/-- `if current is None or version > current: generation += 1; _advance_cursor`. -/
def Reconciling.accept (now : Time) (version : String) (st : Reconciling) : Reconciling :=
  if st.current.all (· < version) then
    ⟨st.generation + 1, some version, advanceCursor now (st.generation + 1) version st.db⟩
  else st

/-- One iteration of `_reconcile_legacy` over a row read at its start. -/
def reconcileRow (now : Time) (required : Finset DataType) (st : Reconciling)
    (row : String × LatchRow) : Except DurableError Reconciling := do
  -- A completed row may keep a key that names no dump: it owes no work.
  if row.2.refreshedAt.isSome && !isVersionText row.1 then return st
  let version ← orderedVersion row.1
  -- A newer accepted extraction already fences this latch.
  if st.supersedes version then return st
  let st := st.accept now version
  let db := assignGeneration now st.generation version st.db
  if row.2.refreshedAt.isNone && required ⊆ row.2.signals then
    let (_, db) ← upsertJob now version st.generation db
    return { st with db }
  else return { st with db }

/-- `SELECT … WHERE generation IS NULL ORDER BY version`.  The order among texts
    that are not dump versions does not matter: each of them is skipped or raises. -/
def legacyRows (db : RefreshDb) : List (String × LatchRow) :=
  db.latch.rows.filter fun row => row.2.generation.isNone

/-- `_reconcile_legacy`. -/
def reconcileLegacy (now : Time) (required : Finset DataType) (db : RefreshDb) :
    Except DurableError Reconciling :=
  let (cursor, db) := lockCursor now db
  (legacyRows db).foldlM (reconcileRow now required) ⟨cursor.generation, cursor.version, db⟩

/-- `reconcile_legacy_latches`: the startup transaction. -/
def reconcileLegacyLatches (now : Time) (required : Finset DataType) (db : RefreshDb) :
    Except DurableError RefreshDb :=
  (reconcileLegacy now required db).map Reconciling.db

/-- The result of `record_durable_signal`. -/
structure DurableSignal where
  version : String
  generation : Option Nat
  signals : Finset DataType
  scheduled : Bool
  superseded : Bool
  alreadyRefreshed : Bool
  deriving DecidableEq

/-- The name of an entity type in a message. -/
def DataType.text : DataType → String
  | .artists => "artists"
  | .labels => "labels"
  | .masters => "masters"
  | .releases => "releases"

/-- The message of the branch that finds the latch and the cursor apart. -/
def generationDisagrees : DurableError :=
  .schemaUnavailable "latch generation disagrees with the cursor"

-- The cursor moves to a newer version, and the latch upsert returns its row.
def Reconciling.signal (now : Time) (version : String) (dataType : DataType) (st : Reconciling) :
    LatchRow × RefreshDb :=
  let acceptedGeneration :=
    if st.supersedes version then none else some (st.accept now version).generation
  upsertSignal now version acceptedGeneration dataType (st.accept now version).db

/-- The statements of `record_durable_signal` after the reconciliation. -/
def acceptSignal (now : Time) (version : String) (dataType : DataType)
    (required : Finset DataType) (st : Reconciling) :
    Except DurableError (DurableSignal × RefreshDb) :=
  let superseded := st.supersedes version
  let generation := (st.accept now version).generation
  let (row, db) := st.signal now version dataType
  let alreadyRefreshed := row.refreshedAt.isSome
  let signal (scheduled : Bool) : DurableSignal :=
    ⟨version, row.generation, row.signals, scheduled, superseded, alreadyRefreshed⟩
  if !superseded && !alreadyRefreshed && required ⊆ row.signals then
    if row.generation ≠ some generation then .error generationDisagrees
    -- An existing pending, leased or retry job is durable too.
    else (upsertJob now version generation db).map fun (_, db) => (signal true, db)
  else .ok (signal false, db)

/-- `record_durable_signal`: the signal and, once complete, its job in one transaction. -/
def recordDurableSignal (now : Time) (versionValue : String) (dataType : DataType)
    (required : Finset DataType) (db : RefreshDb) :
    Except DurableError (DurableSignal × RefreshDb) := do
  let version ← orderedVersion versionValue
  if dataType ∉ required then
    throw (.valueError ("unrecognized extraction type: " ++ DataType.text dataType))
  let st ← reconcileLegacy now required db
  acceptSignal now version dataType required st

end Tableinator.Durable
