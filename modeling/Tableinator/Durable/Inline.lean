import Tableinator.Durable.Delivery

/-! # Inline mode

The explicit rollback of the durable protocol: the handler itself records the signal
on the latch and runs the refresh before it acks.  Its statements know neither the
cursor nor the jobs, and it takes `started_at` for the key of a dump without a
version. -/

namespace Tableinator.Durable

open Relational Effect Effect.Program

/-! ## The latch statements -/

/-- The result of `record_extraction_signal`. -/
structure ExtractionLatch where
  version : String
  signals : Finset DataType
  alreadySignalled : Bool
  alreadyRefreshed : Bool
  superseded : Bool
  deriving DecidableEq

def ExtractionLatch.shouldRefresh (latch : ExtractionLatch) (dataTypes : Finset DataType) : Bool :=
  dataTypes ⊆ latch.signals && !latch.alreadyRefreshed && !latch.superseded

/-- `record_extraction_signal`: the upsert of the durable path without a generation.
    `prior` and `newer` read the latch as it was before the statement. -/
def recordExtractionSignal (now : Time) (version : String) (dataType : DataType)
    (db : RefreshDb) : ExtractionLatch × RefreshDb :=
  let prior := db.latch.lookup version
  let (row, db') := upsertSignal now version none dataType db
  (⟨version, row.signals, prior.any fun row => dataType ∈ row.signals, row.refreshedAt.isSome,
    db.latch.rows.any fun newer => row.createdAt < newer.2.createdAt⟩, db')

/-- `mark_extraction_refreshed`: whatever the row's generation and whatever jobs exist. -/
def markExtractionRefreshed (now : Time) (version : String) (db : RefreshDb) : RefreshDb :=
  { db with
    latch := db.latch.update fun v row =>
      if v = version then { row with refreshedAt := some now, updatedAt := now } else row }

/-! ## The handler -/

/-- What only the inline handler awaits. -/
inductive InlineCall : Type → Type where
  | recordExtractionSignal (version : String) : InlineCall ExtractionLatch
  | refreshDerivedRelations (version : String) : InlineCall Unit

/-- The calls of a handler in either mode. -/
abbrev ServiceCall (ρ : Type) := Call ρ ⊕ InlineCall ρ

abbrev Service (α : Type) := Program ServiceCall Failure α

/-- A part both modes run. -/
abbrev inBoth {α : Type} (p : Handler α) : Service α := p.lift .inl

-- The signal and, when it completes the extraction, the pass.
def signalAndRefresh (version : String) : Service Bool := do
  let admission ← inBoth (await .writeAdmission)
  if !admission then raise "DatabaseUnavailableError"
  else do
    let latch ← await (.inr (.recordExtractionSignal version))
    if latch.shouldRefresh dataTypes then await (.inr (.refreshDerivedRelations version))
    pure true

-- The inline refresh; `true` is `refresh_ok`.  A message that names no extraction is
-- logged and stays terminal.
def refreshInline (d : Delivery) : Service Bool := do
  let pool ← inBoth (await .connectionPool)
  let declared ← inBoth (await .latchDeclared)
  if !(pool && declared) then pure true
  else
    match extractionLatchKey d with
    | none => pure true
    | some version => tryCatch (signalAndRefresh version) fun _ => pure false

-- Purge, then the inline refresh, then the settlement of the delivery.
def purgeAndRefresh (d : Delivery) : Service Unit := do
  let reason ← inBoth (purgeVetoReason d)
  let purgeOk ← inBoth (purgeOrVeto d reason)
  if !purgeOk then inBoth (await (.nack true))
  else do
    let refreshOk ← refreshInline d
    if refreshOk then inBoth (acknowledge d reason.isSome) else inBoth (await (.nack true))

/-- The `extraction_complete` branch in inline mode: no version is refused. -/
def processExtractionCompleteInline (d : Delivery) : Service Unit := do
  let processor ← inBoth (await .batchProcessor)
  let flushed ← if processor then inBoth (await .flushQueue) else pure true
  if !flushed then inBoth (await (.nack true)) else purgeAndRefresh d

/-- `_process_data_message` in inline mode. -/
def processDataMessageInline (d : Delivery) : Service Unit := do
  let shutdown ← inBoth (await .shutdownRequested)
  if shutdown then pure ()
  else tryCatch (processExtractionCompleteInline d) fun _ => inBoth (await (.nack false))

/-- `DERIVED_REFRESH_MODE`. -/
inductive RefreshMode where
  | durable
  | inline
  deriving DecidableEq, Repr

/-- The handler a process runs in its mode. -/
def RefreshMode.process (d : Delivery) : RefreshMode → Service Unit
  | .durable => inBoth (processDataMessage d)
  | .inline => processDataMessageInline d

end Tableinator.Durable
