import Tableinator.Consumers.Process

/-! # Consumer lifecycle

How the loader starts, cancels and recovers its consumers: the periodic queue checker,
the durable recovery loop, the pause of a failed handoff and the completion timers.  Only
`pause_durable_consumers` and `attempt_durable_recovery` take the pause lock. -/

namespace Tableinator.Consumers

open Effect Effect.Program Effect.Routine

/-! ## Opening and closing -/

-- The channel of the type: the one it has if that is open, else a new one.
def deliveryChannel (t : DataType) : Lifecycle Channel := do
  let open? ← read fun s => (s.deliveryChannels t).filter fun channel => !s.isClosed channel
  match open? with
  | some channel => pure channel
  | none => do
    let connection? ← read (·.activeConnection)
    match connection? with
    | none => .raise (.exception "AttributeError")
    | some connection => do
      let number ← rpc (.openChannel connection)
      let channel : Channel := ⟨connection, number⟩
      let _ ← rpc (.setQos channel)
      write (·.setDeliveryChannel t (some channel))
      pure channel

/-- `_start_consumer`. -/
def startConsumer (t : DataType) : Lifecycle Tag := do
  let channel ← deliveryChannel t
  let _ ← rpc (.declareQueue channel ⟨t, false⟩)
  write (·.setQueue t channel)
  rpc (.consume channel t)

def closeEach : List Channel → Lifecycle Unit
  | [] => pure ()
  | channel :: channels => do
    let _ ← rpc (.closeChannel channel)
    closeEach channels

/-- `active_channel = None` and `delivery_channels.clear()`. -/
def Process.dropChannels (s : Process) : Process :=
  { s with activeChannel := none, deliveryChannels := fun _ => none }

/-- The end of `_reset_durable_broker`: one `record_consumer_stopped` for each tag. -/
def Process.forgetTags (s : Process) : Process :=
  { s with
    consumersActive := s.consumersActive - s.tagItems.length
    consumerTags := fun _ => none
    durableRefreshBrokerResetPending := false
    consumerCancellationFailed := false }

def closeChannels (channels : List Channel) : Lifecycle Bool := do
  closeEach channels
  write Process.dropChannels
  pure true

def closeConnectionOrChannels (channels : List Channel) : Option Connection → Lifecycle Bool
  | some connection => do
    let _ ← rpc (.closeConnection connection)
    write fun s => { s.dropChannels with activeConnection := none }
    pure true
  | none => closeChannels channels

-- The two attempts of `_reset_durable_broker` to close what it found open.
def closeTransport (connection : Option Connection) (channels : List Channel) : Lifecycle Bool :=
  tryExcept (closeConnectionOrChannels channels connection)
    (if channels.isEmpty then pure false else tryExcept (closeChannels channels) (pure false))

/-- `_reset_durable_broker`. -/
def resetDurableBroker : Lifecycle Bool := do
  let connection ← read (·.activeConnection)
  let channels ← read Process.heldChannels
  let tagged ← read Process.tagged
  if connection.isNone && channels.isEmpty && tagged then pure false
  else do
    let closed ← closeTransport connection channels
    -- tags are forgotten only once their transport is known to be gone
    if !closed then pure false
    else do
      write Process.forgetTags
      pure true

def cancellationFailed : Lifecycle Unit :=
  write fun s => { s with consumerCancellationFailed := true }

-- A call, and whether its answer came back.
def confirmed (request : Rpc) : Lifecycle Bool :=
  tryExcept
    (do
      let _ ← rpc request
      pure true)
    (pure false)

-- Closes them all, whatever fails; `true` when nothing did.
def closeEachQuietly : List Channel → Lifecycle Bool
  | [] => pure true
  | channel :: channels => do
    let closed ← confirmed (.closeChannel channel)
    let rest ← closeEachQuietly channels
    pure (closed && rest)

/-- The end of `_close_recovery_broker`: one `record_consumer_stopped` for each tag. -/
def Process.forgetTransport (s : Process) : Process :=
  { s with
    activeConnection := none
    activeChannel := none
    deliveryChannels := fun _ => none
    queues := fun _ => none
    consumersActive := s.consumersActive - s.tagItems.length
    consumerTags := fun _ => none
    consumerCancellationFailed := false }

-- The connection, if there is one, else what became of the channels.
def closeRecoveryConnection (channelClosed : Bool) : Option Connection → Lifecycle Bool
  | some connection => do
    -- Connection closure also confirms all of its channels and consumers stopped.
    let _ ← rpc (.closeConnection connection)
    pure true
  | none =>
    if channelClosed then pure true
    else do
      cancellationFailed
      pure false

-- The closes of `_close_recovery_broker`.
def closeRecoveryTransport (connection : Option Connection) (channels : List Channel) :
    Lifecycle Bool :=
  tryCatch
    (do
      let channelClosed ← closeEachQuietly channels
      closeRecoveryConnection channelClosed connection)
    fun
      | .cancelled => do
        cancellationFailed
        .raise .cancelled
      | .exception _ => do
        cancellationFailed
        pure false

/-- `_close_recovery_broker`. -/
def closeRecoveryBroker : Lifecycle Bool := do
  let connection ← read (·.activeConnection)
  let channels ← read Process.heldChannels
  if connection.isNone && channels.isEmpty then do
    let tagged ← read Process.tagged
    if tagged then do
      cancellationFailed
      pure false
    else pure true
  else do
    let closed ← closeRecoveryTransport connection channels
    if !closed then pure false
    else do
      write Process.forgetTransport
      pure true

/-! ## Recovery -/

-- A call on the active channel, which is looked up each time.
def onActiveChannel (request : Channel → Rpc) : Lifecycle Channel := do
  let channel? ← read (·.activeChannel)
  match channel? with
  | none => .raise (.exception "AttributeError")
  | some channel => do
    let _ ← rpc (request channel)
    pure channel

-- The types whose queue holds messages, read on the channel of this recovery.
def queuesWithMessages (channel : Channel) : List DataType → Lifecycle (List DataType)
  | [] => pure []
  | t :: types => do
    let count ← rpc (.messageCount channel t)
    let rest ← queuesWithMessages channel types
    pure (if count > 0 then t :: rest else rest)

def declareQueues : List DataType → Lifecycle Unit
  | [] => pure ()
  | t :: types => do
    let _ ← onActiveChannel (.declareExchange · ⟨t, false⟩)
    let _ ← onActiveChannel (.declareExchange · ⟨t, true⟩)
    let deadLetters ← onActiveChannel (.declareQueue · ⟨t, true⟩)
    let _ ← rpc (.bindQueue deadLetters ⟨t, true⟩)
    let channel ← onActiveChannel (.declareQueue · ⟨t, false⟩)
    let _ ← rpc (.bindQueue channel ⟨t, false⟩)
    write (·.setQueue t channel)
    declareQueues types

/-- `consumer_tags[data_type] = await _start_consumer(data_type)`. -/
def startTracked (t : DataType) : Lifecycle Unit := do
  let tag ← startConsumer t
  write (·.trackTag t tag)

-- A consumer for a type lacking one, with a backlog or not.
def startMissing (backlog : List DataType) (t : DataType) : Lifecycle Unit := do
  let missing ← read fun s => (s.queues t).isSome && (s.consumerTags t).isNone
  when missing do
    startTracked t
    when (t ∈ backlog) (write fun s => { s with completedFiles := s.completedFiles.erase t })

def startAllMissing (backlog : List DataType) : List DataType → Lifecycle Unit
  | [] => pure ()
  | t :: types => do
    startMissing backlog t
    startAllMissing backlog types

-- `_recover_consumers` on its new connection.
def restartConsumers (channel : Channel) : Lifecycle Unit := do
  let backlog ← queuesWithMessages channel typeOrder
  let incomplete ← read fun s => typeOrder.filter (· ∉ s.completedFiles)
  if !backlog.isEmpty || !incomplete.isEmpty then do
    let _ ← onActiveChannel .setQos
    write fun s => { s with queues := fun _ => none }
    declareQueues typeOrder
    startAllMissing backlog typeOrder
  else do
    -- every file complete and every queue empty: nothing to consume
    let _ ← closeRecoveryBroker
    pure ()

-- The new connection and its channel; `none` when there is none.
def openRecoveryTransport : Lifecycle (Option Channel) :=
  tryCatch
    (do
      let connection ← rpc .connect
      write fun s => { s with activeConnection := some connection }
      let number ← rpc (.openChannel connection)
      let channel : Channel := ⟨connection, number⟩
      write fun s => { s with activeChannel := some channel }
      pure (some channel))
    fun
      | .cancelled => do
        cancellationFailed
        .raise .cancelled
      | .exception _ => do
        let _ ← closeRecoveryBroker
        pure none

-- `_recover_consumers` behind its gate.
def replaceTransport : Lifecycle Unit := do
  -- Never create replacement consumers while the old transport is unconfirmed.
  let closed ← closeRecoveryBroker
  if !closed then pure ()
  else do
    let channel? ← openRecoveryTransport
    match channel? with
    | none => pure ()
    | some channel =>
      (restartConsumers channel).tryCatch fun
        | .cancelled => do
          cancellationFailed
          .raise .cancelled
        | .exception _ => do
          let _ ← closeRecoveryBroker
          pure ()

/-- `_recover_consumers`. -/
def recoverConsumers : Lifecycle Unit := recovering () replaceTransport

-- Starts a consumer; a failure drops the channel of the type.
def startOrDrop (t : DataType) : Lifecycle Bool :=
  tryExcept
    (do
      startTracked t
      pure true)
    (do
      write (·.setDeliveryChannel t none)
      pure false)

-- Closes the channel a type had; one that stays open is put back.
def closeOldChannel (t : DataType) : Option Channel → Lifecycle Bool
  | none => pure true
  | some channel =>
    tryExcept
      (do
        let _ ← rpc (.closeChannel channel)
        pure true)
      (do
        let closed ← read (·.isClosed channel)
        if closed then pure true
        else do
          write (·.setDeliveryChannel t (some channel))
          pure false)

-- `_recover_data_type` behind its gate.
def replaceConsumer (t : DataType) : Lifecycle Bool := do
  let oldChannel ← read (·.deliveryChannels t)
  write (·.setDeliveryChannel t none)
  let oldTag ← read (·.consumerTags t)
  let closed ← closeOldChannel t oldChannel
  if !closed then pure false
  else do
    when oldTag.isSome (write (·.untrackTag t))
    -- without a connection there is nothing to open a channel on
    let connection ← read (·.activeConnection)
    if connection.isNone then pure false else startOrDrop t

/-- `_recover_data_type`. -/
def recoverDataType (t : DataType) : Lifecycle Bool := recovering false (replaceConsumer t)

-- The depth on a channel of its own, which is closed whatever happens.
def depthOn (t : DataType) (channel : Channel) : Lifecycle (Option Nat) :=
  (tryExcept
    (do
      let count ← rpc (.messageCount channel t)
      pure (some count))
    (pure none)).ensuring
    (do
      let _ ← confirmed (.closeChannel channel)
      pure ())

/-- `queue_depth`; `none` if the broker cannot say. -/
def queueDepth (t : DataType) : Lifecycle (Option Nat) := do
  let connection? ← read (·.activeConnection)
  match connection? with
  | none => pure none
  | some connection =>
    tryExcept
      (do
        let number ← rpc (.openChannel connection)
        depthOn t ⟨connection, number⟩)
      (pure none)

def resubscribeParked (t : DataType) : Lifecycle Unit := do
  let depth ← queueDepth t
  let skip ← read fun s => (s.consumerTags t).isSome || s.activeConnection.isNone
  when (depth.getD 0 ≠ 0 && !skip) do
    let _ ← startOrDrop t
    pure ()

def resubscribeAllParked : List DataType → Lifecycle Unit
  | [] => pure ()
  | t :: types => do
    resubscribeParked t
    resubscribeAllParked types

/-- `recover_parked_markers`. -/
def recoverParkedMarkers : Lifecycle Unit := do
  let pending ← read Process.typesAwaitingMarker
  let shutdown ← read (·.shutdownRequested)
  if pending.isEmpty || shutdown then pure ()
  else
    recovering () do
      -- no connection is left: the transport is rebuilt with all its consumers
      let connection ← read (·.activeConnection)
      if connection.isNone then recoverConsumers else resubscribeAllParked pending

-- One after the other; `true` when all of them came back.
def recoverEach : List DataType → Lifecycle Bool
  | [] => pure true
  | t :: types => do
    let recovered ← recoverDataType t
    let rest ← recoverEach types
    pure (recovered && rest)

-- The checks on the slower cadence of `periodic_queue_checker`.
def checkStuck (clock : Clock) : Lifecycle Unit := do
  let lost ← wait .lostConsumerTypes
  if lost ≠ ∅ then do
    let recovered ← recoverEach (typeOrder.filter (· ∈ lost))
    -- a type that could not be recovered alone costs the whole transport
    when (!recovered) recoverConsumers
  else do
    let dead ← read Process.consumersUnexpectedlyDead
    if dead then recoverConsumers
    else
      when clock.fullCheck do
        let attached ← read fun s => s.activeConnection.isSome || s.tagged
        when (!attached) recoverConsumers

/-- One round of `periodic_queue_checker`. -/
def queueCheck : Lifecycle Unit :=
  tryExcept
    (do
      let clock ← wait .sleep
      let opened ← read Process.gateOpen
      when opened do
        let failed ← read (·.consumerCancellationFailed)
        if failed then do
          let closed ← closing resetDurableBroker
          when closed recoverConsumers
        else do
          recoverParkedMarkers
          when clock.stuckCheck (checkStuck clock))
    (pure ())

/-! ## Pause and resumption -/

-- Closes one delivery tap, and whether that is certain.
def cancelTap (t : DataType) (tag : Tag) : Lifecycle Bool := do
  let queue? ← read (·.queues t)
  match queue? with
  | none => pure false
  -- Wait for cancel-ok, so that no nack races a still-live subscriber.
  | some queue => confirmed (.cancel queue tag)

def resetUncertain : Lifecycle Unit := do
  write fun s => { s with durableRefreshBrokerResetPending := true }
  let _ ← resetDurableBroker
  pure ()

-- The delivery taps, one after the other; an unconfirmed one resets the broker.
def cancelEach : List (DataType × Tag) → Lifecycle Bool
  | [] => do
    write fun s => { s with pauseReturned := true }
    pure true
  | (t, tag) :: items => do
    let cancelled ← cancelTap t tag
    if !cancelled then do
      resetUncertain
      pure false
    else do
      write (·.untrackTag t)
      cancelEach items

/-- The flags of `pause_durable_consumers`. -/
def Process.pause (t : DataType) (version : String) (s : Process) : Process :=
  { s with
    durableRefreshPaused := true
    durableRefreshReady := false
    durableRefreshRecoverySignals := s.durableRefreshRecoverySignals.insert (t, version)
    durableRefreshResumeTypes :=
      s.durableRefreshResumeTypes ∪ (s.tagItems.map Prod.fst).toFinset }

/-- `pause_durable_consumers`. -/
def pauseDurableConsumers (t : DataType) (version : String) : Lifecycle Bool :=
  withPauseLock do
    write (·.pause t version)
    let _ ← enter .pausing fun _ => true
    (do
      let items ← read Process.tagItems
      cancelEach items).ensuring leave

def resumeTypes : List DataType → Lifecycle Unit
  | [] => pure ()
  | t :: types => do
    let missing ← read fun s => (s.consumerTags t).isNone && (s.queues t).isSome
    when missing (startTracked t)
    resumeTypes types

def resubscribe : Lifecycle Unit := do
  let attached ← read fun s => s.activeConnection.isSome && s.activeChannel.isSome
  if attached then do
    let types ← read fun s => typeOrder.filter (· ∈ s.durableRefreshResumeTypes)
    resumeTypes types
  else recoverConsumers

-- The resubscription of `attempt_durable_recovery`.
def resumeConsumers : Lifecycle Unit := do
  resubscribe
  let missing ← read fun s =>
    typeOrder.any fun t => t ∈ s.durableRefreshResumeTypes && (s.consumerTags t).isNone
  when missing (.raise (.exception "RuntimeError"))

-- Cancels a partial resubscription; `true` when some cancellation is uncertain.
def cancelPartial : List (DataType × Tag) → Lifecycle Bool
  | [] => pure false
  | (t, tag) :: items => do
    let cancelled ← cancelTap t tag
    when cancelled (write (·.untrackTag t))
    let rest ← cancelPartial items
    pure (!cancelled || rest)

def Process.gateClosed (s : Process) : Process :=
  { s with durableRefreshPaused := true, durableRefreshReady := false }

def Process.gateOpened (s : Process) : Process :=
  { s with durableRefreshPaused := false, durableRefreshReady := true, pauseReturned := false }

-- The end of `attempt_durable_recovery` when not every consumer resumed.
def abandonResumption : Lifecycle Bool := do
  write Process.gateClosed
  let items ← read Process.tagItems
  let uncertain ← cancelPartial items
  when uncertain resetUncertain
  pure false

def replaySignals : List (DataType × String) → Lifecycle Unit
  | [] => pure ()
  | (t, version) :: signals => do
    let admission ← read (·.writeAdmission)
    if !admission then .raise (.exception "DatabaseUnavailableError")
    else do
      wait (.recordDurableSignal t version)
      replaySignals signals

-- The database side of `attempt_durable_recovery`.
def replayFailedSignals : Lifecycle Bool :=
  tryExcept
    (do
      wait .reconcileLegacyLatches
      let signals ← read (·.durableRefreshRecoverySignals)
      replaySignals signals
      wait .readRefreshHealth
      pure true)
    (do
      write Process.gateClosed
      pure false)

-- `attempt_durable_recovery` once the failed signals are committed.
def reopenDelivery : Lifecycle Bool := do
  write Process.gateOpened
  tryExcept
    (do
      resumeConsumers
      write fun s =>
        { s with durableRefreshRecoverySignals := [], durableRefreshResumeTypes := ∅ }
      pure true)
    abandonResumption

def resetIfPending : Lifecycle Bool := do
  let pending ← read (·.durableRefreshBrokerResetPending)
  if pending then resetDurableBroker else pure true

/-- `attempt_durable_recovery`. -/
def attemptDurableRecovery : Lifecycle Bool := do
  let possible ← read fun s => s.durableRefreshActive && !s.shutdownRequested && s.connectionPool
  if !possible then pure false
  else
    withPauseLock do
      let reset ← resetIfPending
      if !reset then pure false
      else do
        let schema ← wait .probeDurableSchema
        if !schema then do
          write Process.gateClosed
          pure false
        else do
          let replayed ← replayFailedSignals
          if !replayed then pure false else reopenDelivery

/-- One round of `durable_recovery_loop`. -/
def recoveryRound : Lifecycle Unit :=
  tryExcept
    (do
      let due ← read fun s => s.durableRefreshPaused || !s.durableRefreshReady
      when due do
        let _ ← attemptDurableRecovery
        pure ())
    (pure ())

/-! ## Completion timers -/

-- The timer once its delay is over.
def cancelConsumer (t : DataType) (queue : Channel) (tag : Tag) : Lifecycle Unit := do
  let _ ← rpc (.cancel queue tag)
  write fun s => if s.consumerTags t = some tag then s.untrackTag t else s
  let idle ← read Process.allConsumersIdle
  when idle do
    let _ ← closing closeRecoveryBroker
    pure ()

/-- `cancel_after_delay`, for the queue and the tag the timer was set for. -/
def cancelAfterDelay (t : DataType) (queue : Channel) (tag : Tag) : Lifecycle Unit := do
  let current ← read (·.consumerTags t)
  when (current = some tag) <|
    (cancelConsumer t queue tag).tryCatch fun
      | .cancelled => do
        cancellationFailed
        .raise .cancelled
      | .exception _ => cancellationFailed

/-- `schedule_consumer_cancellation`, for a type whose queue is known. -/
def scheduleConsumerCancellation (t : DataType) : Lifecycle Unit := do
  let queue? ← read (·.queues t)
  match queue? with
  | none => pure ()
  | some queue => do
    let tag? ← read (·.consumerTags t)
    let _ ← wait .sleep
    match tag? with
    | none => pure ()
    | some tag => cancelAfterDelay t queue tag

/-! ## The loop -/

inductive Job where
  | queueCheck
  | recoveryRound
  | pause (dataType : DataType) (version : String)
  | completionTimer (dataType : DataType)

/-- How a wait ends. -/
structure Choice where
  acted : Bool
  delivered : Bool
  count : Nat
  clock : Clock
  lost : Finset DataType
  healthy : Bool

/-- What happens without a task: the handlers move the completion flags, the broker ends
    a subscription or a channel, and the process is told to shut down. -/
inductive Happening where
  | files (completed signalled : Finset DataType)
  | subscriptionLost (tag : Tag)
  | channelLost (channel : Channel)
  | shutdown

-- The database calls of the recovery answer, or raise.
def whenHealthy {ρ : Type} (choice : Choice) (s : Process) (a : ρ) :
    Option (Except Failure ρ × Process) :=
  some (if choice.healthy then .ok a else .error (.exception "OperationalError"), s)

def Process.noteStart (s : Process) : Process :=
  { s with startedWhilePaused := s.startedWhilePaused || s.pauseReturned }

def perform (choice : Choice) (s : Process) :
    {ρ : Type} → Wait ρ → Option (Except Failure ρ × Process)
  | _, .act request =>
    match if choice.acted then s.broker.act choice.count request else none with
    | some (a, broker) => some (.ok (some a), { s with broker := broker })
    | none => some (.ok none, s)
  | _, .reply request result =>
    -- The answer to `consume` completes `_start_consumer`.
    let completes := request.starts && result.isSome && choice.delivered
    some (.ok choice.delivered, if completes then s.noteStart else s)
  | _, .sleep => some (.ok choice.clock, s)
  | _, .lostConsumerTypes => whenHealthy choice s choice.lost
  | _, .probeDurableSchema => some (.ok choice.healthy, s)
  | _, .reconcileLegacyLatches => whenHealthy choice s ()
  | _, .recordDurableSignal _ _ => whenHealthy choice s ()
  | _, .readRefreshHealth => whenHealthy choice s ()

def happen : Happening → Process → Process
  | .files completed signalled, s =>
    { s with completedFiles := completed, extractionSignalled := signalled }
  | .subscriptionLost tag, s =>
    { s with broker :=
      { s.broker with subscriptions := s.broker.subscriptions.filter (·.tag ≠ tag) } }
  | .channelLost channel, s => { s with broker := s.broker.endChannel channel }
  | .shutdown, s => { s with shutdownRequested := true }

/-- The loader's tasks.  A new timer of a type cancels the one before it. -/
def machine : Machine Process Region Job Choice Happening Wait Failure where
  program
    | .queueCheck => queueCheck
    | .recoveryRound => recoveryRound
    | .pause t version => do
      let _ ← pauseDurableConsumers t version
      pure ()
    | .completionTimer t => scheduleConsumerCancellation t
  interrupt
    | .completionTimer _ => some .cancelled
    | _ => none
  perform := perform
  react := happen

abbrev Loader := EventLoop Process Region Wait Failure

end Tableinator.Consumers
