import Tableinator.Durable.Inline
import Tableinator.Effect.Trace
import Tableinator.Json

/-! # The terminal handler down to its payload

The handler uses the fields of an `extraction_complete` message as they came.  Here its
purge reads `record_counts` and `started_at` itself, before its transaction, and its
pause cancels the consumers one by one. -/

namespace Tableinator.Durable

open Effect Effect.Program

/-- The transaction of a purge, and what a pause does to the broker. -/
inductive WireCall : Type → Type where
  | purgeRows (startedAt : String) : WireCall Unit
  | consumerTags : WireCall (List DataType)
  | queueKnown (dataType : DataType) : WireCall Bool
  | cancelConsumer (dataType : DataType) : WireCall Unit
  | resetDurableBroker : WireCall Bool

abbrev TerminalCall (ρ : Type) := ServiceCall ρ ⊕ WireCall ρ

abbrev Terminal (α : Type) := Program TerminalCall Failure α

/-! ## Reading the payload -/

/-- Python's `value == 0`. -/
def equalsZero : Json → Bool
  | .bool b => !b
  | .int n => n == 0
  | .float mantissa _ => mantissa == 0
  | _ => false

/-- `data.get("record_counts", {})`. -/
def recordCounts (data : Document) : Json := (data.lookup "record_counts").getD (.obj [])

/-- `data.get("started_at", "")`. -/
def startedAt (data : Document) : Json := (data.lookup "started_at").getD (.str "")

section

-- Python's `str`, and the texts `datetime.fromisoformat` parses.
variable (text : Json → String) (fromisoformat : String → Bool)

/-- `str(value or "")`. -/
def textOrEmpty (value : Json) : String := if value.truthy then text value else ""

/-- The message as the handler of the durable protocol knows it. -/
def deliveryOf (data : Document) (dataType : DataType) : Delivery where
  dataType := dataType
  version := textOrEmpty text (data.get "version")
  startedAt := textOrEmpty text (data.get "started_at")
  recordCount :=
    match (recordCounts data).field (DataType.text dataType) with
    | .int n => if 0 ≤ n then some n.toNat else none
    | _ => none

/-- What `purge_stale_rows` makes of a start time: the guards, and then the parser. -/
inductive PurgeStart where
  | skipped
  | refused
  | parsed (startedAt : String)
  deriving DecidableEq

def purgeStart (startedAt recordCount : Json) : PurgeStart :=
  if !startedAt.truthy then .skipped
  else if equalsZero recordCount then .skipped
  else
    match startedAt with
    | .str s => if fromisoformat s then .parsed s else .refused
    | _ => .refused

/-- `purge_stale_rows` of the service and of `PostgreSQLRecordPersistence`, up to the
    transaction. -/
def purgeStaleRowsOf (startedAt recordCount : Json) : Terminal Unit := do
  let pool ← await (.inl (.inl .connectionPool))
  if !pool then pure ()
  else do
    let admission ← await (.inl (.inl .writeAdmission))
    if !admission then raise "DatabaseUnavailableError"
    else
      match purgeStart fromisoformat startedAt recordCount with
      | .skipped => pure ()
      | .refused => raise "ValueError"
      | .parsed s => await (.inr (.purgeRows s))

-- The body of the handler's `try` around the purge: only a mapping has a `get`.
def purgePayload (data : Document) (dataType : DataType) : Terminal Unit :=
  match recordCounts data with
  | .obj counts =>
    purgeStaleRowsOf fromisoformat (startedAt data)
      (Document.get counts (DataType.text dataType))
  | _ => raise "AttributeError"

/-- The loop of `pause_durable_consumers` over `consumer_tags`. -/
def cancelConsumers : List DataType → Terminal Bool
  | [] => pure true
  | t :: rest => do
    let known ← await (.inr (.queueKnown t))
    if !known then do
      let _ ← await (.inr .resetDurableBroker)
      pure false
    else do
      let confirmed ← tryCatch
        (do
          await (.inr (.cancelConsumer t))
          pure true)
        fun _ => pure false
      if confirmed then cancelConsumers rest
      else do
        let _ ← await (.inr .resetDurableBroker)
        pure false

/-- `pause_durable_consumers`. -/
def pauseDurableConsumers : Terminal Bool := do
  let tags ← await (.inr .consumerTags)
  cancelConsumers tags

/-- The calls of the handler that the payload decides or that take the broker several. -/
@[reducible] def composite : {ρ : Type} → ServiceCall ρ → Bool
  | _, .inl (.purgeStaleRows _ _) => true
  | _, .inl (.pauseDurableConsumers _) => true
  | _, _ => false

def expand (data : Document) (dataType : DataType) : {ρ : Type} → ServiceCall ρ → Terminal ρ
  | _, .inl (.purgeStaleRows _ _) => purgePayload fromisoformat data dataType
  | _, .inl (.pauseDurableConsumers _) => pauseDurableConsumers
  | _, op => await (.inl op)

@[simp] theorem expand_of_not_composite {data : Document} {dataType : DataType} {ρ : Type}
    {op : ServiceCall ρ} (h : composite op = false) :
    expand fromisoformat data dataType op = await (.inl op) := by
  cases op with
  | inl op =>
    cases op with
    | purgeStaleRows startedAt recordCount => simp [composite] at h
    | pauseDurableConsumers version => simp [composite] at h
    | _ => rfl
  | inr op => rfl

/-- `_process_data_message` on an `extraction_complete` payload. -/
def processTerminal (mode : RefreshMode) (data : Document) (dataType : DataType) : Terminal Unit :=
  (mode.process (deliveryOf text data dataType)).interp (expand fromisoformat data dataType)

end

/-! ## What answers a call

Reading a global or the rejection flag raises nothing, nor does the gauge or the log, nor
what catches every exception itself: the dead-letter count and the reset of the broker. -/

@[simp] def infallible : {ρ : Type} → TerminalCall ρ → Bool
  | _, .inl (.inl .shutdownRequested) => true
  | _, .inl (.inl .batchProcessor) => true
  | _, .inl (.inl .hadDlqNacks) => true
  | _, .inl (.inl .deadLettersWaiting) => true
  | _, .inl (.inl .latchDeclared) => true
  | _, .inl (.inl .writeAdmission) => true
  | _, .inl (.inl .connectionPool) => true
  | _, .inl (.inl .durableRefreshReady) => true
  | _, .inl (.inl .cancellationDue) => true
  | _, .inl (.inl .resetDlqNacks) => true
  | _, .inl (.inl (.recordPurgeConsecutiveVetoes _ _)) => true
  | _, .inl (.inl (.alertPurgeVetoes _ _)) => true
  | _, .inr .consumerTags => true
  | _, .inr (.queueKnown _) => true
  | _, .inr .resetDurableBroker => true
  | _, _ => false

/-- Every other call may succeed, fail or answer in the negative. -/
@[simp] def Answers {ρ : Type} (op : TerminalCall ρ) (reply : Except Failure ρ) : Prop :=
  infallible op = true → reply.isOk = true

/-- A process and a broker that answer each call the same way throughout one handling. -/
structure Circumstances where
  shutdownRequested : Bool
  batchProcessor : Bool
  hadDlqNacks : Bool
  latchDeclared : Bool
  writeAdmission : Bool
  connectionPool : Bool
  durableRefreshReady : Bool
  cancellationDue : Bool
  consumerTags : List DataType
  queueKnown : DataType → Bool
  flushQueue : Except Failure Bool
  deadLettersWaiting : Option Nat
  purgeWasVetoed : Except Failure Bool
  recordPurgeVeto : Except Failure Unit
  purgeRows : Except Failure Unit
  recordDurableSignal : Except Failure DurableSignal
  recordExtractionSignal : Except Failure ExtractionLatch
  refreshDerivedRelations : Except Failure Unit
  scheduleConsumerCancellation : Except Failure Unit
  consecutivePurgeVetoes : Except Failure Nat
  cancelConsumer : DataType → Except Failure Unit
  resetDurableBroker : Bool
  ack : Except Failure Unit
  nack : Bool → Except Failure Unit

@[simp] def Circumstances.answer (c : Circumstances) : {ρ : Type} → TerminalCall ρ → Except Failure ρ
  | _, .inl (.inl .shutdownRequested) => .ok c.shutdownRequested
  | _, .inl (.inl .batchProcessor) => .ok c.batchProcessor
  | _, .inl (.inl .flushQueue) => c.flushQueue
  | _, .inl (.inl .hadDlqNacks) => .ok c.hadDlqNacks
  | _, .inl (.inl .deadLettersWaiting) => .ok c.deadLettersWaiting
  | _, .inl (.inl .latchDeclared) => .ok c.latchDeclared
  | _, .inl (.inl (.purgeWasVetoed _)) => c.purgeWasVetoed
  | _, .inl (.inl .writeAdmission) => .ok c.writeAdmission
  | _, .inl (.inl (.recordPurgeVeto _)) => c.recordPurgeVeto
  | _, .inl (.inl .connectionPool) => .ok c.connectionPool
  | _, .inl (.inl (.purgeStaleRows _ _)) => c.purgeRows
  | _, .inl (.inl .durableRefreshReady) => .ok c.durableRefreshReady
  | _, .inl (.inl (.recordDurableSignal _ _)) => c.recordDurableSignal
  | _, .inl (.inl .cancellationDue) => .ok c.cancellationDue
  | _, .inl (.inl .scheduleConsumerCancellation) => c.scheduleConsumerCancellation
  | _, .inl (.inl .resetDlqNacks) => .ok ()
  | _, .inl (.inl (.consecutivePurgeVetoes _)) => c.consecutivePurgeVetoes
  | _, .inl (.inl (.recordPurgeConsecutiveVetoes _ _)) => .ok ()
  | _, .inl (.inl (.alertPurgeVetoes _ _)) => .ok ()
  | _, .inl (.inl (.pauseDurableConsumers _)) => .ok c.resetDurableBroker
  | _, .inl (.inl .ack) => c.ack
  | _, .inl (.inl (.nack requeue)) => c.nack requeue
  | _, .inl (.inr (.recordExtractionSignal _)) => c.recordExtractionSignal
  | _, .inl (.inr (.refreshDerivedRelations _)) => c.refreshDerivedRelations
  | _, .inr (.purgeRows _) => c.purgeRows
  | _, .inr .consumerTags => .ok c.consumerTags
  | _, .inr (.queueKnown t) => .ok (c.queueKnown t)
  | _, .inr (.cancelConsumer t) => c.cancelConsumer t
  | _, .inr .resetDurableBroker => .ok c.resetDurableBroker

theorem Circumstances.answers (c : Circumstances) {ρ : Type} (op : TerminalCall ρ) :
    Answers op (c.answer op) := by
  intro hop
  cases op with
  | inl op =>
    cases op with
    | inl op => cases op <;> first | rfl | simp [infallible] at hop
    | inr op => simp [infallible] at hop
  | inr op => cases op <;> first | rfl | simp [infallible] at hop

/-- Nothing fails, and nothing speaks against the purge. -/
def calm : Circumstances where
  shutdownRequested := false
  batchProcessor := true
  hadDlqNacks := false
  latchDeclared := true
  writeAdmission := true
  connectionPool := true
  durableRefreshReady := true
  cancellationDue := true
  consumerTags := [.artists, .labels]
  queueKnown _ := true
  flushQueue := .ok true
  deadLettersWaiting := some 0
  purgeWasVetoed := .ok false
  recordPurgeVeto := .ok ()
  purgeRows := .ok ()
  recordDurableSignal := .ok ⟨"20260131", some 1, {.artists}, false, false, false⟩
  recordExtractionSignal := .ok ⟨"20260131", {.artists}, false, false, false⟩
  refreshDerivedRelations := .ok ()
  scheduleConsumerCancellation := .ok ()
  consecutivePurgeVetoes := .ok 0
  cancelConsumer _ := .ok ()
  resetDurableBroker := true
  ack := .ok ()
  nack _ := .ok ()

/-- Python's `str` on the values it spells as they stand. -/
def plainText : Json → String
  | .str s => s
  | .int n => toString n
  | .null => "None"
  | .bool b => if b then "True" else "False"
  | _ => ""

/-- The one start time of the message below. -/
def isPlainStart (s : String) : Bool := s == "2026-02-01T06:00:00+00:00"

def plainMessage : Document :=
  [("type", .str "extraction_complete"), ("version", .str "20260131"),
    ("started_at", .str "2026-02-01T06:00:00+00:00"),
    ("record_counts", .obj [("artists", .int 10), ("labels", .int 4)])]

end Tableinator.Durable
