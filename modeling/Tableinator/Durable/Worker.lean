import Tableinator.Durable.Signals

/-! # The refresh worker

Claiming a due job, the lease and its heartbeat, the two fences of a pass and
the settlement of a failed one.  `NOW()` and the worker's own clock are one
clock here, and each function runs at one instant of it. -/

namespace Tableinator.Durable

open Relational

def leaseSeconds : Time := 120

def maxBackoffSeconds : Time := 300

/-- `min(_MAX_BACKOFF_SECONDS, 2 ** min(attempts, 8))`. -/
def backoff (attempts : Nat) : Time := min maxBackoffSeconds (2 ^ min attempts 8)

structure ClaimedJob where
  version : String
  generation : Nat
  token : Token
  epoch : Nat
  attemptCount : Nat
  deriving DecidableEq

/-! ## Claiming -/

def JobRow.activeLease (now : Time) (row : JobRow) : Bool :=
  row.state == .leased && row.leaseExpiresAt.any (now < ·)

def JobRow.expiredLease (now : Time) (row : JobRow) : Bool :=
  row.state == .leased && row.leaseExpiresAt.any (· ≤ now)

def JobRow.due (now : Time) (row : JobRow) : Bool :=
  ((row.state == .pending || row.state == .retry) && row.nextAttemptAt.any (· ≤ now)) ||
    row.expiredLease now

-- `ORDER BY generation DESC, next_attempt_at NULLS LAST`
def claimOrder (a b : String × JobRow) : Prop :=
  b.2.generation < a.2.generation ∨
    (a.2.generation = b.2.generation ∧
      match a.2.nextAttemptAt, b.2.nextAttemptAt with
      | _, none => True
      | none, some _ => False
      | some x, some y => x ≤ y)

instance : DecidableRel claimOrder := fun a b => by
  unfold claimOrder
  have : Decidable (match a.2.nextAttemptAt, b.2.nextAttemptAt with
      | _, none => True
      | none, some _ => False
      | some x, some y => x ≤ y) := by
    split <;> infer_instance
  infer_instance

/-- The row `SELECT … FOR UPDATE SKIP LOCKED LIMIT 1` returns.  A heartbeat holds a
    job row without the cursor lock, so `locked` rows are skipped. -/
def dueJob (now : Time) (locked : String → Bool) (db : RefreshDb) : Option (String × JobRow) :=
  ((db.job.rows.filter fun row => row.2.due now && !locked row.1).insertionSort claimOrder).head?

/-- `UPDATE job SET state = 'leased', …`. -/
def JobRow.lease (row : JobRow) (now : Time) (owner : String) (token : Token) : JobRow :=
  { row with
    state := .leased
    nextAttemptAt := none
    leaseOwner := some owner
    leaseToken := some token
    leaseEpoch := row.leaseEpoch + 1
    leaseExpiresAt := some (now + leaseSeconds)
    attemptCount := row.attemptCount + 1
    startedAt := row.startedAt.or (some now)
    updatedAt := now }

/-- `claim_due_job`. -/
def claimDueJob (now : Time) (owner : String) (token : Token) (locked : String → Bool)
    (db : RefreshDb) : Option ClaimedJob × RefreshDb :=
  let (cursor, db) := lockCursor now db
  if db.job.rows.any fun row => row.2.activeLease now then (none, db)
  else
    match dueJob now locked db with
    | none => (none, db)
    | some (version, row) =>
      if row.generation ≠ cursor.generation then
        (none, { db with job := db.job.insert version (row.supersede now) })
      else if row.state = .leased then
        -- An expired claimant may still be alive: clear its token and back off.
        (none, { db with
          job := db.job.insert version
            (row.retryAfter now (backoff row.attemptCount) "lease_expired") })
      else
        (some ⟨version, row.generation, token, row.leaseEpoch + 1, row.attemptCount + 1⟩,
          { db with job := db.job.insert version (row.lease now owner token) })

/-! ## The lease -/

-- The token and epoch of a claim, as the lease statements match them.
def JobRow.heldBy (job : ClaimedJob) (row : JobRow) : Bool :=
  row.state == .leased && row.leaseToken == some job.token && row.leaseEpoch == job.epoch

/-- `_owns_lease`. -/
def ownsLease (now : Time) (job : ClaimedJob) (db : RefreshDb) : Bool :=
  (db.job.lookup job.version).any fun row => row.heldBy job && row.leaseExpiresAt.any (now < ·)

/-- One renewal of `_heartbeat`; `false` sets `lost`. -/
def heartbeat (now : Time) (job : ClaimedJob) (db : RefreshDb) : Bool × RefreshDb :=
  if ownsLease now job db then
    (true, { db with
      job := db.job.update fun version row =>
        if version = job.version then
          { row with leaseExpiresAt := some (now + leaseSeconds), updatedAt := now }
        else row })
  else (false, db)

/-! ## The pass -/

/-- The cursor columns the fences compare. -/
def RefreshDb.current (db : RefreshDb) : Option (Nat × Option String) :=
  db.cursor.map fun cursor => (cursor.generation, cursor.version)

def RefreshDb.isCurrent (db : RefreshDb) (job : ClaimedJob) : Bool :=
  db.current == some (job.generation, some job.version)

/-- `_before_refresh`, after the advisory lock. -/
def beforeRefresh (now : Time) (job : ClaimedJob) (db : RefreshDb) : Except DurableError Unit :=
  if !db.isCurrent job || !ownsLease now job db then
    .error (.supersededJob ("job " ++ job.version ++ " lost generation or lease before refresh"))
  else .ok ()

def LatchRow.unstamped (job : ClaimedJob) (row : LatchRow) : Bool :=
  row.generation == some job.generation && row.refreshedAt.isNone

/-- `_before_commit`: the late fence, the latch stamp and the completed state.  Each
    update touches one row, so `rowcount != 1` means its row does not qualify. -/
def beforeCommit (now : Time) (job : ClaimedJob) (db : RefreshDb) :
    Except DurableError RefreshDb :=
  if !db.isCurrent job || !ownsLease now job db then
    .error (.supersededJob ("job " ++ job.version ++ " lost generation or lease at commit"))
  else
    match db.latch.lookup job.version with
    | none => .error (.supersededJob ("job " ++ job.version ++ " has no unstamped latch at commit"))
    | some latch =>
      if !latch.unstamped job then
        .error (.supersededJob ("job " ++ job.version ++ " has no unstamped latch at commit"))
      else
        match db.job.lookup job.version with
        | none => .error (.supersededJob ("job " ++ job.version ++ " lost its claim at completion"))
        | some row =>
          if row.generation = job.generation ∧ row.leaseToken = some job.token ∧
              row.leaseEpoch = job.epoch then
            .ok { db with
              latch := db.latch.insert job.version
                { latch with refreshedAt := some now, updatedAt := now }
              job := db.job.insert job.version
                { row.unlease now with state := .completed, completedAt := some now } }
          else
            .error (.supersededJob ("job " ++ job.version ++ " lost its claim at completion"))

/-- `_mark_after_failure`. -/
def markAfterFailure (now : Time) (job : ClaimedJob) (error : String) (db : RefreshDb) :
    RefreshDb :=
  { db with
    job := db.job.update fun version row =>
      if version = job.version ∧ row.heldBy job then
        if db.isCurrent job then
          row.retryAfter now (backoff job.attemptCount) (String.ofList (error.toList.take 1024))
        else row.supersede now
      else row }

end Tableinator.Durable
