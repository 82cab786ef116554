import Tableinator.Catalog
import Tableinator.Effect.Program
import Mathlib.Algebra.Order.Ring.Rat
import Mathlib.Logic.Function.Basic

/-! # The batch observer

`PostgreSQLBatchObserver` is told when a delivery is accepted, when the engine settles
it and when a cancelled handler takes it back.  It keeps the start times of the accepted
deliveries of each type in a deque.  A settlement takes the oldest of them, whichever
delivery it settles; a withdrawal removes its own and ignores a missing one. -/

namespace Tableinator.Batch

open Effect

/-- A reading of the process's clock, in seconds. -/
abbrev Moment := Rat

/-- `common.delivery.Settlement`. -/
inductive Settlement where
  | ack
  | reject
  | requeue
  deriving DecidableEq, Repr

/-- `common.delivery.DeliveryResult`. -/
structure DeliveryResult where
  settlement : Settlement
  outcome : String
  deriving DecidableEq, Repr

/-- `_FlushState`. -/
structure FlushState where
  size : Nat
  settled : Nat
  rejected : Nat
  identityBackfilled : Nat
  deriving DecidableEq, Repr

/-- What `settled` counts in the flush the settlement belongs to. -/
def FlushState.count (state : FlushState) (result : DeliveryResult) : FlushState :=
  { state with
    settled := state.settled + 1
    rejected := if result.settlement = .ack then state.rejected else state.rejected + 1 }

/-- The last settlement of a flush that rejected nothing. -/
def FlushState.processed (state : FlushState) : Bool :=
  state.settled == state.size && state.rejected == 0

structure PostgreSQLBatchObserver where
  acceptedAt : DataType → List Moment
  lastSettledAt : DataType → Moment
  heldSince : DataType → Option Moment
  states : DataType → Option FlushState
  hadDlqNacks : DataType → Bool
  processedCounts : DataType → Nat
  requeuedCounts : DataType → Nat
  batchCounts : DataType → Nat
  mediaBackfilledCounts : DataType → Nat
  identityBackfilledCounts : DataType → Nat

namespace PostgreSQLBatchObserver

/-- `__init__`. -/
def start (now : Moment) : PostgreSQLBatchObserver where
  acceptedAt _ := []
  lastSettledAt _ := now
  heldSince _ := none
  states _ := none
  hadDlqNacks _ := false
  processedCounts _ := 0
  requeuedCounts _ := 0
  batchCounts _ := 0
  mediaBackfilledCounts _ := 0
  identityBackfilledCounts _ := 0

variable (entity t : DataType) (startedAt now : Moment) (result : DeliveryResult)
  (o : PostgreSQLBatchObserver)

def accepted : PostgreSQLBatchObserver :=
  { o with acceptedAt := Function.update o.acceptedAt entity (o.acceptedAt entity ++ [startedAt]) }

/-- `remove` raises for a missing entry, and the raise is suppressed. -/
def withdrawn : PostgreSQLBatchObserver :=
  { o with acceptedAt := Function.update o.acceptedAt entity ((o.acceptedAt entity).erase startedAt) }

def settled : PostgreSQLBatchObserver :=
  let state := (o.states entity).map fun state => state.count result
  let startedAt := (o.acceptedAt entity).head?.getD now
  let terminalDuration := now - startedAt
  let outcome := if result.settlement = .ack then result.outcome else "failed"
  { acceptedAt := Function.update o.acceptedAt entity (o.acceptedAt entity).tail
    lastSettledAt :=
      if result.settlement = .requeue then o.lastSettledAt
      else Function.update o.lastSettledAt entity now
    heldSince :=
      if result.settlement = .requeue then
        -- Only a hold that timed out is a record still waiting to be written.
        if result.outcome = "held_timeout" ∧ o.heldSince entity = none then
          Function.update o.heldSince entity (some (now - terminalDuration))
        else o.heldSince
      else Function.update o.heldSince entity none
    states := Function.update o.states entity state
    hadDlqNacks :=
      if result.settlement = .reject then Function.update o.hadDlqNacks entity true
      else o.hadDlqNacks
    processedCounts :=
      if result.settlement = .ack then
        Function.update o.processedCounts entity (o.processedCounts entity + 1)
      else o.processedCounts
    requeuedCounts :=
      if result.settlement = .requeue then
        Function.update o.requeuedCounts entity (o.requeuedCounts entity + 1)
      else o.requeuedCounts
    batchCounts :=
      if (state.filter FlushState.processed).isSome then
        Function.update o.batchCounts entity (o.batchCounts entity + 1)
      else o.batchCounts
    mediaBackfilledCounts :=
      if outcome = "media_backfilled" then
        Function.update o.mediaBackfilledCounts entity (o.mediaBackfilledCounts entity + 1)
      else o.mediaBackfilledCounts
    identityBackfilledCounts :=
      match state.filter FlushState.processed with
      | some state =>
        Function.update o.identityBackfilledCounts entity
          (o.identityBackfilledCounts entity + state.identityBackfilled)
      | none => o.identityBackfilledCounts }

def oldestUnsettledAgeS : Moment :=
  match o.acceptedAt entity with
  | oldest :: _ => now - oldest
  | [] => 0

def heldAgeS : Moment :=
  match o.heldSince entity with
  | some since => now - since
  | none => 0

def outstandingAccepted : Nat := (o.acceptedAt entity).length

/-! ## What each report leaves of a type -/

@[simp] theorem settled_acceptedAt_of_ne (h : t ≠ entity) :
    (o.settled entity now result).acceptedAt t = o.acceptedAt t := by
  simp [settled, h]

@[simp] theorem settled_lastSettledAt_of_ne (h : t ≠ entity) :
    (o.settled entity now result).lastSettledAt t = o.lastSettledAt t := by
  simp only [settled]
  split <;> simp [h]

@[simp] theorem settled_heldSince_of_ne (h : t ≠ entity) :
    (o.settled entity now result).heldSince t = o.heldSince t := by
  simp only [settled]
  split
  · split <;> simp [h]
  · simp [h]

@[simp] theorem settled_acceptedAt :
    (o.settled entity now result).acceptedAt entity = (o.acceptedAt entity).tail := by
  simp [settled]

theorem settled_lastSettledAt :
    (o.settled entity now result).lastSettledAt entity =
      if result.settlement = .requeue then o.lastSettledAt entity else now := by
  simp only [settled]
  split <;> simp

/-- A wait, once begun, is kept until a record of the type is dealt with. -/
theorem settled_heldSince :
    (o.settled entity now result).heldSince entity =
      if result.settlement = .requeue then
        if result.outcome = "held_timeout" ∧ o.heldSince entity = none then
          some ((o.acceptedAt entity).head?.getD now)
        else o.heldSince entity
      else none := by
  simp only [settled]
  split
  · split <;> simp
  · simp

end PostgreSQLBatchObserver

/-- The types whose oldest delivery waits longer than the bound while none of the type
    was dealt with for as long, each with that wait.  `queued` is the engine's
    `oldest_pending_age_s`. -/
def stalled (o : PostgreSQLBatchObserver) (queued : DataType → Moment) (stallS now : Moment)
    (dataType : DataType) : Option Moment :=
  let age := max (max (queued dataType) (o.oldestUnsettledAgeS dataType now))
    (o.heldAgeS dataType now)
  if stallS < age ∧ stallS < now - o.lastSettledAt dataType then some age else none

/-! ## Runs of reports

Beside the observer a run keeps what the reports themselves say, by the start times of
the deliveries. -/

inductive Report where
  | accepted (dataType : DataType) (startedAt : Moment)
  | settled (dataType : DataType) (startedAt : Moment) (result : DeliveryResult) (now : Moment)
  | withdrawn (dataType : DataType) (startedAt : Moment)
  deriving DecidableEq

structure Ledger where
  /-- Every delivery accepted so far. -/
  accepted : List Moment
  /-- Those not withdrawn, in the order of their acceptance. -/
  kept : List Moment
  /-- Those neither settled nor withdrawn. -/
  outstanding : List Moment
  settlements : Nat
  /-- The times of the settlements that dealt with a record. -/
  progress : List Moment

namespace Ledger

def empty : Ledger := ⟨[], [], [], 0, []⟩

def accept (startedAt : Moment) (l : Ledger) : Ledger :=
  { l with
    accepted := l.accepted ++ [startedAt]
    kept := l.kept ++ [startedAt]
    outstanding := l.outstanding ++ [startedAt] }

def settle (startedAt : Moment) (result : DeliveryResult) (now : Moment) (l : Ledger) : Ledger :=
  { l with
    outstanding := l.outstanding.erase startedAt
    settlements := l.settlements + 1
    progress := if result.settlement = .requeue then l.progress else now :: l.progress }

def withdraw (startedAt : Moment) (l : Ledger) : Ledger :=
  { l with
    kept := l.kept.erase startedAt
    outstanding := l.outstanding.erase startedAt }

end Ledger

structure Watch where
  observer : PostgreSQLBatchObserver
  ledger : DataType → Ledger
  /-- The last reading of the clock. -/
  now : Moment

namespace Watch

def start (now : Moment) : Watch := ⟨.start now, fun _ => .empty, now⟩

/-- A delivery is settled or withdrawn after its acceptance and at most once. -/
def step (w : Watch) : Report → Option Watch
  | .accepted t startedAt =>
    some ⟨w.observer.accepted t startedAt,
      Function.update w.ledger t ((w.ledger t).accept startedAt), startedAt⟩
  | .settled t startedAt result now =>
    if startedAt ∈ (w.ledger t).outstanding then
      some ⟨w.observer.settled t now result,
        Function.update w.ledger t ((w.ledger t).settle startedAt result now), now⟩
    else none
  | .withdrawn t startedAt =>
    if startedAt ∈ (w.ledger t).outstanding then
      some { w with
        observer := w.observer.withdrawn t startedAt
        ledger := Function.update w.ledger t ((w.ledger t).withdraw startedAt) }
    else none

/-- The runs whose reports all meet a condition on the state before them. -/
abbrev Run (ok : Watch → Report → Prop) : Watch → Watch → Prop := RunOf step ok

end Watch

def Report.dataType : Report → DataType
  | .accepted t _ => t
  | .settled t _ _ _ => t
  | .withdrawn t _ => t

/-- What the observer and the ledger hold of a type. -/
structure Watch.Same (t : DataType) (w w' : Watch) : Prop where
  acceptedAt : w'.observer.acceptedAt t = w.observer.acceptedAt t
  lastSettledAt : w'.observer.lastSettledAt t = w.observer.lastSettledAt t
  heldSince : w'.observer.heldSince t = w.observer.heldSince t
  ledger : w'.ledger t = w.ledger t

/-- A report leaves the other types as they are. -/
theorem Watch.step_elsewhere {w w' : Watch} {report : Report} {t : DataType}
    (hstep : w.step report = some w') (hne : t ≠ report.dataType) : w.Same t w' := by
  cases report with
  | accepted t' startedAt =>
    cases hstep
    constructor <;> simp [PostgreSQLBatchObserver.accepted, show t ≠ t' from hne]
  | settled t' startedAt result now =>
    simp only [step] at hstep
    split at hstep
    · cases hstep
      constructor <;> simp [show t ≠ t' from hne]
    · cases hstep
  | withdrawn t' startedAt =>
    simp only [step] at hstep
    split at hstep
    · cases hstep
      constructor <;> simp [PostgreSQLBatchObserver.withdrawn, show t ≠ t' from hne]
    · cases hstep

end Tableinator.Batch
