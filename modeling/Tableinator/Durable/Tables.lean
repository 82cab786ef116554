import Tableinator.Catalog
import Tableinator.Relational.Table
import Tableinator.Durable.DumpVersion

/-! # The durable refresh relations

The three schema-owned relations of `durable_refresh.py`, scoped to this
loader's discriminator: the cursor (one row), the extraction latch and the job
relation, both keyed by version.  Below them the statements the transactions of
this protocol are made of.

Column defaults (`pending`, zero attempts, zero epoch, due at once) and the two
keys of the job relation besides its primary key, `UNIQUE (loader, generation)`
and the foreign key into the latch, are those `probe_durable_schema` requires. -/

namespace Tableinator.Durable

open Relational

/-- The `uuid4` of one claim. -/
abbrev Token := Nat

/-- The row of `loader_derived_refresh_cursor`. -/
structure Cursor where
  generation : Nat
  version : Option String
  updatedAt : Time
  deriving DecidableEq

/-- A row of `loader_extraction_latch`. -/
structure LatchRow where
  signals : Finset DataType
  purgeVetoed : Finset DataType
  refreshedAt : Option Time
  generation : Option Nat
  createdAt : Time
  updatedAt : Time
  deriving DecidableEq

inductive JobState where
  | pending
  | leased
  | retry
  | completed
  | superseded
  deriving DecidableEq, Repr

/-- `state IN ('pending', 'retry', 'leased')`. -/
def JobState.live : JobState → Bool
  | .pending | .retry | .leased => true
  | .completed | .superseded => false

/-- A row of `loader_derived_refresh_job`. -/
structure JobRow where
  generation : Nat
  state : JobState
  attemptCount : Nat
  nextAttemptAt : Option Time
  leaseOwner : Option String
  leaseToken : Option Token
  leaseEpoch : Nat
  leaseExpiresAt : Option Time
  lastError : Option String
  createdAt : Time
  updatedAt : Time
  startedAt : Option Time
  completedAt : Option Time
  supersededAt : Option Time
  deriving DecidableEq

/-- The durable tables of this loader. -/
structure RefreshDb where
  cursor : Option Cursor
  latch : Table String LatchRow
  job : Table String JobRow

/-- Every table empty. -/
def RefreshDb.empty : RefreshDb := ⟨none, .empty, .empty⟩

/-! ## Row updates -/

/-- The lease columns cleared, as every statement that ends a lease clears them. -/
def JobRow.unlease (row : JobRow) (now : Time) : JobRow :=
  { row with leaseOwner := none, leaseToken := none, leaseExpiresAt := none, updatedAt := now }

/-- `SET state = 'superseded', …`. -/
def JobRow.supersede (row : JobRow) (now : Time) : JobRow :=
  { row.unlease now with state := .superseded, nextAttemptAt := none, supersededAt := some now }

/-- `SET state = 'retry', next_attempt_at = NOW() + delay, last_error = error, …`. -/
def JobRow.retryAfter (row : JobRow) (now delay : Time) (error : String) : JobRow :=
  { row.unlease now with
    state := .retry, nextAttemptAt := some (now + delay), lastError := some error }

/-- The row `INSERT INTO job (loader, version, generation)` creates. -/
def JobRow.fresh (now : Time) (generation : Nat) : JobRow where
  generation := generation
  state := .pending
  attemptCount := 0
  nextAttemptAt := some now
  leaseOwner := none
  leaseToken := none
  leaseEpoch := 0
  leaseExpiresAt := none
  lastError := none
  createdAt := now
  updatedAt := now
  startedAt := none
  completedAt := none
  supersededAt := none

/-- The row an insert that names only the key columns creates. -/
def LatchRow.fresh (now : Time) : LatchRow where
  signals := ∅
  purgeVetoed := ∅
  refreshedAt := none
  generation := none
  createdAt := now
  updatedAt := now

/-! ## Statements -/

/-- `_lock_cursor`: the cursor row, created at generation 0 when absent. -/
def lockCursor (now : Time) (db : RefreshDb) : Cursor × RefreshDb :=
  match db.cursor with
  | some cursor => (cursor, db)
  | none => (⟨0, none, now⟩, { db with cursor := some ⟨0, none, now⟩ })

/-- `_advance_cursor`: move the cursor and supersede every older live job. -/
def advanceCursor (now : Time) (generation : Nat) (version : String) (db : RefreshDb) :
    RefreshDb :=
  { db with
    cursor := some ⟨generation, some version, now⟩
    job := db.job.update fun _ row =>
      if row.generation < generation && row.state.live then row.supersede now else row }

/-- `_upsert_job`: `INSERT … ON CONFLICT (loader, version) DO NOTHING`.  Only the
    primary key is an arbiter, so a taken generation and a missing latch row are
    errors. -/
def upsertJob (now : Time) (version : String) (generation : Nat) (db : RefreshDb) :
    Except DurableError (Bool × RefreshDb) :=
  if (db.job.lookup version).isSome then .ok (false, db)
  else if db.job.rows.any fun row => row.2.generation == generation then .error .uniqueViolation
  else if (db.latch.lookup version).bind LatchRow.generation != some generation then
    .error .foreignKeyViolation
  else .ok (true, { db with job := db.job.insert version (.fresh now generation) })

/-- `UPDATE latch SET generation = … WHERE version = … AND generation IS NULL`. -/
def assignGeneration (now : Time) (generation : Nat) (version : String) (db : RefreshDb) :
    RefreshDb :=
  { db with
    latch := db.latch.update fun v row =>
      if v = version ∧ row.generation = none then
        { row with generation := some generation, updatedAt := now }
      else row }

/-- The row the signal upsert of `record_durable_signal` leaves at its version. -/
def signalledRow (now : Time) (generation : Option Nat) (dataType : DataType) :
    Option LatchRow → LatchRow
  | none => { LatchRow.fresh now with generation := generation, signals := {dataType} }
  | some row =>
    { row with
      generation := row.generation.or generation
      signals := insert dataType row.signals
      updatedAt := now }

/-- `INSERT INTO latch … ON CONFLICT DO UPDATE … RETURNING`. -/
def upsertSignal (now : Time) (version : String) (generation : Option Nat)
    (dataType : DataType) (db : RefreshDb) : LatchRow × RefreshDb :=
  let row := signalledRow now generation dataType (db.latch.lookup version)
  (row, { db with latch := db.latch.insert version row })

/-- The row `veto_statement` leaves at its version; it may be the first write of it. -/
def vetoedRow (now : Time) (dataType : DataType) : Option LatchRow → LatchRow
  | none => { LatchRow.fresh now with purgeVetoed := {dataType} }
  | some row => { row with purgeVetoed := insert dataType row.purgeVetoed, updatedAt := now }

/-- `record_purge_veto`. -/
def recordPurgeVeto (now : Time) (version : String) (dataType : DataType) (db : RefreshDb) :
    RefreshDb :=
  { db with latch := db.latch.insert version (vetoedRow now dataType (db.latch.lookup version)) }

end Tableinator.Durable
