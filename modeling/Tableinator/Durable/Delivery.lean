import Tableinator.Effect.Program
import Tableinator.Durable.Obligation

/-! # The terminal delivery

The `extraction_complete` branch of `_process_data_message` in durable mode.  The
handler is a program over the calls it awaits and the process globals it reads, so
any of them may fail, and anything may happen between two of them. -/

namespace Tableinator.Durable

open Relational Effect Effect.Program

/-- An `extraction_complete` message; `version` is `str(data.get("version") or "")`. -/
structure Delivery where
  dataType : DataType
  version : String
  startedAt : String
  recordCount : Option Nat
  deriving DecidableEq

/-- What the handler awaits, and the globals it reads when it reads them, by the type
    of the reply. -/
inductive Call : Type → Type where
  | shutdownRequested : Call Bool
  | batchProcessor : Call Bool
  | flushQueue : Call Bool
  | hadDlqNacks : Call Bool
  | deadLettersWaiting : Call (Option Nat)
  | latchDeclared : Call Bool
  | purgeWasVetoed (version : String) : Call Bool
  | writeAdmission : Call Bool
  | recordPurgeVeto (version : String) : Call Unit
  | connectionPool : Call Bool
  | purgeStaleRows (startedAt : String) (recordCount : Option Nat) : Call Unit
  | durableRefreshReady : Call Bool
  | recordDurableSignal (version : String) (dataType : DataType) : Call DurableSignal
  | cancellationDue : Call Bool
  | scheduleConsumerCancellation : Call Unit
  | resetDlqNacks : Call Unit
  | consecutivePurgeVetoes (dataType : DataType) : Call Nat
  | recordPurgeConsecutiveVetoes (dataType : DataType) (consecutive : Nat) : Call Unit
  -- The error that is logged at the threshold.
  | alertPurgeVetoes (dataType : DataType) (consecutive : Nat) : Call Unit
  | pauseDurableConsumers (version : String) : Call Bool
  | ack : Call Unit
  | nack (requeue : Bool) : Call Unit

/-- The class name of an exception. -/
abbrev Failure := String

abbrev Handler (α : Type) := Program Call Failure α

/-- `PURGE_VETO_ALERT_RUNS`. -/
def purgeVetoAlertRuns : Nat := 2

/-- `extraction_latch_key`. -/
def extractionLatchKey (d : Delivery) : Option String :=
  if strip d.version ≠ "" then some (strip d.version)
  else if strip d.startedAt ≠ "" then some (strip d.startedAt)
  else none

-- `connection_pool` and `extraction_latch` are both there.
def latchAtHand : Handler Bool := do
  let pool ← await .connectionPool
  if !pool then pure false else await .latchDeclared

-- The reading of the recorded veto at the end of `purge_veto_reason`.
def recordedVetoReason (d : Delivery) : Handler (Option String) :=
  match extractionLatchKey d with
  | none => pure none
  | some version => do
    let atHand ← latchAtHand
    if !atHand then pure none
    else
      tryCatch
        (do
          let vetoed ← await (.purgeWasVetoed version)
          pure (if vetoed then some "an earlier delivery of this signal was vetoed" else none))
        fun _ => pure (some "the recorded veto could not be read")

def deadLetterReason (d : Delivery) : Option Nat → Handler (Option String)
  | none => pure (some "the dead-letter queue could not be read")
  | some 0 => recordedVetoReason d
  | some (waiting + 1) => pure (some (toString (waiting + 1) ++ " dead letters are waiting"))

/-- `purge_veto_reason`. -/
def purgeVetoReason (d : Delivery) : Handler (Option String) := do
  let processor ← await .batchProcessor
  let nacked ← if processor then await .hadDlqNacks else pure false
  if nacked then pure (some "records were dead-lettered this run")
  else do
    let waiting ← await .deadLettersWaiting
    deadLetterReason d waiting

/-- `persist_purge_veto`. -/
def persistPurgeVeto (d : Delivery) : Handler Bool :=
  match extractionLatchKey d with
  | none => pure true
  | some version => do
    let atHand ← latchAtHand
    if !atHand then pure true
    else
      tryCatch
        (do
          let admission ← await .writeAdmission
          if !admission then raise "DatabaseUnavailableError"
          else do
            await (.recordPurgeVeto version)
            pure true)
        fun _ => pure false

-- The gauge, and the alert at the threshold, once the vetoes are counted.
def publishPurgeVetoes (dataType : DataType) : Option Nat → Handler Unit
  | none => pure ()
  | some consecutive => do
    await (.recordPurgeConsecutiveVetoes dataType consecutive)
    if purgeVetoAlertRuns ≤ consecutive then await (.alertPurgeVetoes dataType consecutive)

/-- `report_purge_vetoes`: a failure to count is only logged. -/
def reportPurgeVetoes (dataType : DataType) : Handler Unit := do
  let admission ← await .writeAdmission
  let atHand ← latchAtHand
  if atHand && admission then do
    let counted ← tryCatch
      (do
        let consecutive ← await (.consecutivePurgeVetoes dataType)
        pure (some consecutive))
      fun _ => pure none
    publishPurgeVetoes dataType counted
  else pure ()

-- The purge of stale rows; `true` is `purge_ok`.
def purgeOrVeto (d : Delivery) (reason : Option String) : Handler Bool := do
  if reason.isSome then persistPurgeVeto d
  else do
    let pool ← await .connectionPool
    if !pool then pure true
    else
      tryCatch
        (do
          await (.purgeStaleRows d.startedAt d.recordCount)
          pure true)
        fun _ => pure false

-- The durable handoff; `true` is `refresh_ok`.
def handOff (d : Delivery) : Handler Bool := do
  let pool ← await .connectionPool
  let ready ← await .durableRefreshReady
  if !pool || !ready then pure false
  else
    tryCatch
      (do
        let admission ← await .writeAdmission
        if !admission then raise "DatabaseUnavailableError"
        else do
          let _ ← await (.recordDurableSignal d.version d.dataType)
          pure true)
      fun _ => pure false

-- The end of the branch when purge and refresh are both done.
def acknowledge (d : Delivery) (vetoed : Bool) : Handler Unit := do
  let due ← await .cancellationDue
  if due then await .scheduleConsumerCancellation
  await .ack
  let processor ← await .batchProcessor
  if vetoed && processor then await .resetDlqNacks
  reportPurgeVetoes d.dataType

-- Requeue; after a failed handoff only once the consumers are paused.
def requeue (handOffFailed : Bool) (version : String) : Handler Unit := do
  let paused ← if handOffFailed then await (.pauseDurableConsumers version) else pure true
  if paused then await (.nack true)

-- Purge, then the handoff, then the settlement of the delivery.
def purgeAndHandOff (d : Delivery) (version : String) : Handler Unit := do
  let reason ← purgeVetoReason d
  let purgeOk ← purgeOrVeto d reason
  if !purgeOk then requeue false version
  else do
    let refreshOk ← handOff d
    if refreshOk then acknowledge d reason.isSome else requeue true version

/-- The `extraction_complete` branch. -/
def processExtractionComplete (d : Delivery) : Handler Unit := do
  let processor ← await .batchProcessor
  let flushed ← if processor then await .flushQueue else pure true
  if !flushed then await (.nack true)
  else
    match orderedVersion d.version with
    | .error _ => await (.nack false)
    | .ok version => purgeAndHandOff d version

/-- `_process_data_message`: a delivery that meets a shutdown stays unsettled, and any
    exception rejects it. -/
def processDataMessage (d : Delivery) : Handler Unit := do
  let shutdown ← await .shutdownRequested
  if shutdown then pure ()
  else tryCatch (processExtractionComplete d) fun _ => await (.nack false)

/-! ## Acknowledged only after the signal is durable -/

@[simp] def Call.allowed (recorded : Bool) : {ρ : Type} → Call ρ → Prop
  | _, .ack => recorded = true
  | _, _ => True

@[simp] def Call.after (d : Delivery) (recorded : Bool) : {ρ : Type} → Call ρ → Except Failure ρ → Bool
  | _, .recordDurableSignal version dataType, .ok _ => recorded || (version == d.version && dataType == d.dataType)
  | _, _, _ => recorded

/-- A handler that acks only after `record_durable_signal` returned for its delivery. -/
abbrev Guarded {α : Type} (d : Delivery) (p : Handler α) (Q : Bool → Except Failure α → Prop)
    (recorded : Bool) : Prop :=
  p.wp Call.allowed (Call.after d) Q recorded

theorem deadLetterReason_guarded (d : Delivery) (waiting : Option Nat) (recorded : Bool) :
    Guarded d (deadLetterReason d waiting) (fun r _ => r = recorded) recorded := by
  match waiting with
  | none => simp [deadLetterReason]
  | some (waiting + 1) => simp [deadLetterReason]
  | some 0 =>
    simp only [deadLetterReason, recordedVetoReason]
    cases extractionLatchKey d with
    | none => simp
    | some version => simp [latchAtHand]

theorem purgeVetoReason_guarded (d : Delivery) (recorded : Bool) :
    Guarded d (purgeVetoReason d) (fun r _ => r = recorded) recorded := by
  simp [purgeVetoReason, deadLetterReason_guarded]

theorem persistPurgeVeto_guarded (d : Delivery) (recorded : Bool) :
    Guarded d (persistPurgeVeto d) (fun r _ => r = recorded) recorded := by
  unfold persistPurgeVeto
  cases extractionLatchKey d with
  | none => simp
  | some version => simp [latchAtHand]

theorem reportPurgeVetoes_guarded (d : Delivery) (dataType : DataType) (recorded : Bool) :
    Guarded d (reportPurgeVetoes dataType) (fun r _ => r = recorded) recorded := by
  simp [reportPurgeVetoes, publishPurgeVetoes, latchAtHand]

theorem purgeOrVeto_guarded (d : Delivery) (reason : Option String) (recorded : Bool) :
    Guarded d (purgeOrVeto d reason) (fun r _ => r = recorded) recorded := by
  have hveto := persistPurgeVeto_guarded d recorded
  simp [purgeOrVeto, hveto]

/-- The handoff succeeds only with a committed signal. -/
theorem handOff_guarded (d : Delivery) (recorded : Bool) :
    Guarded d (handOff d) (fun r out => out = .ok true → r = true) recorded := by
  simp [handOff]

theorem acknowledge_guarded (d : Delivery) (vetoed : Bool) :
    Guarded d (acknowledge d vetoed) (fun _ _ => True) true := by
  have hreport : Guarded d (reportPurgeVetoes d.dataType) (fun _ _ => True) true :=
    wp_mono (reportPurgeVetoes_guarded d d.dataType true) fun _ _ _ => trivial
  simp [acknowledge, hreport]

theorem requeue_guarded (d : Delivery) (handOffFailed : Bool) (version : String) (recorded : Bool) :
    Guarded d (requeue handOffFailed version) (fun _ _ => True) recorded := by
  simp [requeue]

theorem purgeAndHandOff_guarded (d : Delivery) (version : String) (recorded : Bool) :
    Guarded d (purgeAndHandOff d version) (fun _ _ => True) recorded := by
  refine (wp_bind _ _ _ _).2 (wp_mono (purgeVetoReason_guarded d recorded) ?_)
  rintro r (e | reason) rfl
  · trivial
  refine (wp_bind _ _ _ _).2 (wp_mono (purgeOrVeto_guarded d reason r) ?_)
  rintro r (e | purgeOk) rfl
  · trivial
  cases purgeOk with
  | false => exact requeue_guarded d false version r
  | true =>
    refine (wp_bind _ _ _ _).2 (wp_mono (handOff_guarded d r) ?_)
    rintro r' (e | refreshOk) hrecorded
    · trivial
    cases refreshOk with
    | false => exact requeue_guarded d true version r'
    | true =>
      -- The only way to the ack: the handoff answered `true`.
      rw [hrecorded rfl]
      exact acknowledge_guarded d reason.isSome

theorem processExtractionComplete_guarded (d : Delivery) (recorded : Bool) :
    Guarded d (processExtractionComplete d) (fun _ _ => True) recorded := by
  unfold processExtractionComplete
  cases orderedVersion d.version with
  | error e => simp
  | ok version => simp [purgeAndHandOff_guarded]

theorem processDataMessage_guarded (d : Delivery) :
    Guarded d (processDataMessage d) (fun _ _ => True) false := by
  refine (wp_bind _ _ _ _).2 ((wp_await _ _ _).2 ⟨trivial, ?_, fun _ => trivial⟩)
  intro shutdown
  refine (wp_ite _ _ _ _ _).2 ⟨fun _ => trivial, fun _ => (wp_tryCatch _ _ _ _).2 ?_⟩
  refine wp_mono (processExtractionComplete_guarded d false) ?_
  rintro r (e | _) _
  · simp
  · trivial

end Tableinator.Durable
