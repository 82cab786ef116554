import Mathlib.Data.Finset.Card
import Tableinator.Catalog
import Tableinator.Effect.Cooperative

/-! # The process and its broker

The process globals that the tasks of the loader share, the broker they talk to, and how
a routine of the loader makes a broker call, passes the gate of a recovery function or
takes the pause lock. -/

namespace Tableinator.Consumers

open Effect Effect.Program Effect.Routine

/-! ## The broker -/

abbrev Connection := Nat

abbrev Tag := Nat

structure Channel where
  connection : Connection
  number : Nat
  deriving DecidableEq

structure Subscription where
  tag : Tag
  channel : Channel
  dataType : DataType
  deriving DecidableEq

/-- What is open at the broker, and the next fresh identifier. -/
structure Broker where
  connections : List Connection
  channels : List Channel
  subscriptions : List Subscription
  issued : Nat

/-- A queue of a data type, or its dead-letter queue. -/
structure Destination where
  dataType : DataType
  deadLetter : Bool

inductive Rpc where
  | connect
  | openChannel (connection : Connection)
  | closeConnection (connection : Connection)
  | setQos (channel : Channel)
  | declareExchange (channel : Channel) (destination : Destination)
  | declareQueue (channel : Channel) (destination : Destination)
  | bindQueue (channel : Channel) (destination : Destination)
  | messageCount (channel : Channel) (dataType : DataType)
  | consume (channel : Channel) (dataType : DataType)
  | cancel (queue : Channel) (tag : Tag)
  | closeChannel (channel : Channel)

def Rpc.starts : Rpc → Bool
  | .consume _ _ => true
  | _ => false

namespace Broker

def endChannel (channel : Channel) (b : Broker) : Broker :=
  { b with
    channels := b.channels.filter (· ≠ channel)
    subscriptions := b.subscriptions.filter (·.channel ≠ channel) }

def endConnection (connection : Connection) (b : Broker) : Broker :=
  { b with
    connections := b.connections.filter (· ≠ connection)
    channels := b.channels.filter (·.connection ≠ connection)
    subscriptions := b.subscriptions.filter (·.channel.connection ≠ connection) }

/-- The broker acting on a request; `count` is the number of messages ready.  Nothing
    but a close is possible on what is closed already. -/
def act (count : Nat) (b : Broker) : Rpc → Option (Nat × Broker)
  | .connect =>
    some (b.issued, { b with connections := b.issued :: b.connections, issued := b.issued + 1 })
  | .openChannel connection =>
    if connection ∈ b.connections then
      some (b.issued, { b with
        channels := ⟨connection, b.issued⟩ :: b.channels, issued := b.issued + 1 })
    else none
  | .closeConnection connection => some (0, b.endConnection connection)
  | .closeChannel channel => some (0, b.endChannel channel)
  | .consume channel dataType =>
    if channel ∈ b.channels then
      some (b.issued, { b with
        subscriptions := ⟨b.issued, channel, dataType⟩ :: b.subscriptions, issued := b.issued + 1 })
    else none
  | .cancel queue tag =>
    if queue ∈ b.channels then
      some (0, { b with
        subscriptions := b.subscriptions.filter fun a => ¬(a.tag = tag ∧ a.channel = queue) })
    else none
  | .messageCount channel _ => if channel ∈ b.channels then some (count, b) else none
  | .setQos channel => if channel ∈ b.channels then some (0, b) else none
  | .declareExchange channel _ => if channel ∈ b.channels then some (0, b) else none
  | .declareQueue channel _ => if channel ∈ b.channels then some (0, b) else none
  | .bindQueue channel _ => if channel ∈ b.channels then some (0, b) else none

end Broker

/-! ## The process -/

/-- The globals of `tableinator.py` that the lifecycle reads or writes, and the broker. -/
structure Process where
  consumerTags : DataType → Option Tag
  deliveryChannels : DataType → Option Channel
  /-- A queue object stands for the channel it was declared on. -/
  queues : DataType → Option Channel
  activeConnection : Option Connection
  activeChannel : Option Channel
  consumerCancellationFailed : Bool
  completedFiles : Finset DataType
  extractionSignalled : Finset DataType
  durableRefreshActive : Bool
  durableRefreshPaused : Bool
  durableRefreshReady : Bool
  durableRefreshBrokerResetPending : Bool
  durableRefreshResumeTypes : Finset DataType
  durableRefreshRecoverySignals : List (DataType × String)
  shutdownRequested : Bool
  connectionPool : Bool
  writeAdmission : Bool
  broker : Broker
  /-- The gauge that `record_consumer_started` and `record_consumer_stopped` move. -/
  consumersActive : Int
  /-- History: a pause has returned `True` and recovery has not lifted the flag since. -/
  pauseReturned : Bool
  /-- History: `_start_consumer` completed in such an interval. -/
  startedWhilePaused : Bool

/-- `DATA_TYPES` in its order, which is also the sorted one. -/
def typeOrder : List DataType := [.artists, .labels, .masters, .releases]

namespace Process

def tagged (s : Process) : Bool := typeOrder.any fun t => (s.consumerTags t).isSome

/-- `consumer_tags.items()`, in the order of the types where the dict keeps that of insertion. -/
def tagItems (s : Process) : List (DataType × Tag) :=
  typeOrder.filterMap fun t => (s.consumerTags t).map fun tag => (t, tag)

/-- The delivery channels, again in the order of the types, and the active channel. -/
def heldChannels (s : Process) : List Channel :=
  typeOrder.filterMap s.deliveryChannels ++ s.activeChannel.toList

def isClosed (s : Process) (channel : Channel) : Bool := channel ∉ s.broker.channels

def setTag (t : DataType) (tag : Option Tag) (s : Process) : Process :=
  { s with consumerTags := Function.update s.consumerTags t tag }

/-- A tag entered, and its `record_consumer_started`. -/
def trackTag (t : DataType) (tag : Tag) (s : Process) : Process :=
  { s.setTag t (some tag) with consumersActive := s.consumersActive + 1 }

/-- A tag popped, and its `record_consumer_stopped`. -/
def untrackTag (t : DataType) (s : Process) : Process :=
  { s.setTag t none with consumersActive := s.consumersActive - 1 }

def setDeliveryChannel (t : DataType) (channel : Option Channel) (s : Process) : Process :=
  { s with deliveryChannels := Function.update s.deliveryChannels t channel }

def setQueue (t : DataType) (channel : Channel) (s : Process) : Process :=
  { s with queues := Function.update s.queues t (some channel) }

section

variable {t t' : DataType} (s : Process)

theorem setTag_self (tag : Option Tag) : (s.setTag t tag).consumerTags t = tag :=
  Function.update_self t _ _

theorem setTag_of_ne (tag : Option Tag) (h : t' ≠ t) :
    (s.setTag t tag).consumerTags t' = s.consumerTags t' :=
  Function.update_of_ne h _ _

theorem setDeliveryChannel_self (channel : Option Channel) :
    (s.setDeliveryChannel t channel).deliveryChannels t = channel :=
  Function.update_self t _ _

theorem setDeliveryChannel_of_ne (channel : Option Channel) (h : t' ≠ t) :
    (s.setDeliveryChannel t channel).deliveryChannels t' = s.deliveryChannels t' :=
  Function.update_of_ne h _ _

theorem setQueue_self (channel : Channel) : (s.setQueue t channel).queues t = some channel :=
  Function.update_self t _ _

theorem setQueue_of_ne (channel : Channel) (h : t' ≠ t) :
    (s.setQueue t channel).queues t' = s.queues t' :=
  Function.update_of_ne h _ _

end

/-- The gate of the recovery functions. -/
def gateOpen (s : Process) : Bool :=
  !(s.durableRefreshActive && (s.durableRefreshPaused || !s.durableRefreshReady))

/-- `types_awaiting_marker`. -/
def typesAwaitingMarker (s : Process) : List DataType :=
  typeOrder.filter fun t =>
    t ∈ s.completedFiles && (s.consumerTags t).isNone && t ∉ s.extractionSignalled

/-- `check_all_consumers_idle`. -/
def allConsumersIdle (s : Process) : Bool := !s.tagged && s.completedFiles.card == typeOrder.length

/-- `check_consumers_unexpectedly_dead`. -/
def consumersUnexpectedlyDead (s : Process) : Bool :=
  !s.tagged && s.completedFiles.card < typeOrder.length && !s.shutdownRequested

end Process

/-! ## Routines -/

/-- `except Exception` does not catch a cancellation. -/
inductive Failure where
  | exception (name : String)
  | cancelled

/-- Where a task is: holding the pause lock, past the flag of a pause, past the gate of a
    recovery function, or closing the transport. -/
inductive Region where
  | pauseLock
  | pausing
  | recovering
  | closing
  deriving DecidableEq

/-- What has come due when the checker wakes. -/
structure Clock where
  stuckCheck : Bool
  fullCheck : Bool

inductive Wait : Type → Type where
  /-- The broker gets a request and acts on it, or not. -/
  | act (request : Rpc) : Wait (Option Nat)
  /-- The answer comes back, or not. -/
  | reply (request : Rpc) (result : Option Nat) : Wait Bool
  | sleep : Wait Clock
  | lostConsumerTypes : Wait (Finset DataType)
  | probeDurableSchema : Wait Bool
  | reconcileLegacyLatches : Wait Unit
  | recordDurableSignal (dataType : DataType) (version : String) : Wait Unit
  | readRefreshHealth : Wait Unit

abbrev Lifecycle (α : Type) := Routine Process Region Wait Failure α

/-- `try: body  except Exception: handler`. -/
def tryExcept {α : Type} (body : Lifecycle α) (handler : Lifecycle α) : Lifecycle α :=
  body.tryCatch fun
    | .exception _ => handler
    | .cancelled => .raise .cancelled

/-- A broker call: an answer that does not come back raises. -/
def rpc (request : Rpc) : Lifecycle Nat := do
  let result ← wait (.act request)
  let delivered ← wait (.reply request result)
  match result, delivered with
  | some a, true => pure a
  | _, _ => .raise (.exception "AMQPError")

/-- `if condition: body`. -/
def when (condition : Bool) (body : Lifecycle Unit) : Lifecycle Unit :=
  if condition then body else pure ()

/-- The part of a recovery function behind its gate. -/
def recovering {α : Type} (closed : α) (body : Lifecycle α) : Lifecycle α := do
  let opened ← enter .recovering Process.gateOpen
  if !opened then pure closed else body.ensuring leave

/-- A part that closes the transport. -/
def closing {α : Type} (body : Lifecycle α) : Lifecycle α := do
  let _ ← enter .closing fun _ => true
  body.ensuring leave

/-- `async with durable_refresh_pause_lock`. -/
def withPauseLock {α : Type} (body : Lifecycle α) : Lifecycle α := do
  acquire .pauseLock
  body.ensuring leave

/-! ## Rules -/

theorem tryExcept_only {α : Type} {ok : ∀ {ρ : Type}, TaskOp Process Region Wait ρ → Prop}
    {body handler : Lifecycle α} (hbody : body.Only ok) (hhandler : handler.Only ok) :
    (tryExcept body handler).Only ok := by
  refine only_tryCatch hbody fun e => ?_
  cases e with
  | exception name => exact hhandler
  | cancelled => trivial

theorem when_only {ok : ∀ {ρ : Type}, TaskOp Process Region Wait ρ → Prop} {condition : Bool}
    {body : Lifecycle Unit} (hbody : body.Only ok) : (when condition body).Only ok := by
  cases condition with
  | true => exact hbody
  | false => trivial

theorem rpc_only {change : Process → Process → Prop} {plain : ∀ {ρ : Type}, Wait ρ → Prop}
    {request : Rpc} (hact : plain (.act request)) (hreply : ∀ r, plain (.reply request r)) :
    (rpc request).Only (TaskOp.Within change plain) := by
  refine only_bind (only_wait hact) fun result => only_bind (only_wait (hreply result)) ?_
  intro delivered
  cases result <;> cases delivered <;> trivial

section

variable {Job Choice Env : Type} {M : Machine Process Region Job Choice Env Wait Failure}
  {D : Discipline Process Region Choice Wait} {stop : Option Failure} {held : List Region} {α : Type}
  {P : Process → Prop}

theorem triple_tryExcept {body handler : Lifecycle α} {Q Q' : Except Failure α → Process → Prop}
    (hbody : Triple M D stop held P body Q) (hok : ∀ a s, Q (.ok a) s → Q' (.ok a) s)
    (hhandler : ∀ name, Triple M D stop held (Q (.error (.exception name))) handler Q')
    (hcancelled : ∀ s, Q (.error .cancelled) s → Q' (.error .cancelled) s) :
    Triple M D stop held P (tryExcept body handler) Q' := by
  refine triple_tryCatch hbody hok fun e => ?_
  cases e with
  | exception name => exact hhandler name
  | cancelled => exact triple_raise hcancelled

theorem triple_when {condition : Bool} {body : Lifecycle Unit}
    {Q : Except Failure Unit → Process → Prop} (hbody : Triple M D stop held P body Q)
    (hskip : ∀ s, P s → Q (.ok ()) s) : Triple M D stop held P (when condition body) Q := by
  cases condition with
  | true => exact hbody
  | false => exact triple_pure hskip

end

end Tableinator.Consumers
