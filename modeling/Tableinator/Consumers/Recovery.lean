import Tableinator.Consumers.Singleness
import Tableinator.Effect.Undisturbed

/-! # Recovery

The other side of one subscription each: once the broker answers again, a single round of
the checker gives every type its consumer back.  The round has the loop to itself, so the
process is what the round left at its last wait, and each routine is followed from the
state it finds to the state it leaves. -/

namespace Tableinator.Consumers

open Effect Effect.Program Effect.Routine

/-! ## A broker that answers -/

/-- The broker acts and its answers come back, the database answers, both cadences of the
    checker are due, the look reports what it is said to, and with a backlog every queue
    holds messages. -/
structure Obliging (backlog : Prop) (reported : Finset DataType → Prop) (choice : Choice) :
    Prop where
  acted : choice.acted = true
  delivered : choice.delivered = true
  healthy : choice.healthy = true
  stuckCheck : choice.clock.stuckCheck = true
  fullCheck : choice.clock.fullCheck = true
  lost : reported choice.lost
  count : backlog → 0 < choice.count

theorem Obliging.permissive {backlog : Prop} {reported : Finset DataType → Prop}
    {answers : Nat → Choice} (h : ∀ i, Obliging backlog reported (answers i)) :
    EventLoop.Permissive Alone Confirmed answers where
  admits κ others hidle := hidle
  permits i ρ w := by
    cases w with
    | reply request result => exact fun _ _ => (h i).delivered
    | _ => trivial

theorem perform_total (choice : Choice) (s : Process) {ρ : Type} (w : Wait ρ) :
    (machine.perform choice s w).isSome = true := by
  cases w with
  | act request =>
    simp only [machine, perform]
    split
    · rfl
    · rfl
  | _ => rfl

/-- Undisturbed, the routine returns, and `Q` holds of what it returns. -/
abbrev Attains (backlog : Prop) (reported : Finset DataType → Prop) (held : List Region) {α : Type}
    (s : Process) (p : Lifecycle α) (Q : α → Process → Prop) : Prop :=
  Sound machine (undisturbed (Obliging backlog reported)) none p
    (fun held' s' r => held' = held ∧ Returns Q (fun _ => False) r s') held s

section

variable {backlog : Prop} {reported : Finset DataType → Prop} {held : List Region} {α β : Type}
  {s : Process} {p : Lifecycle α} {Q Q' : α → Process → Prop} {R : β → Process → Prop}

theorem attains_pure {a : α} (h : Q a s) : Attains backlog reported held s (pure a) Q := ⟨rfl, h⟩

theorem Attains.mono (h : Attains backlog reported held s p Q) (himp : ∀ a s', Q a s' → Q' a s') :
    Attains backlog reported held s p Q' := by
  refine sound_mono h ?_
  intro held' s' r hr
  refine ⟨hr.1, ?_⟩
  cases r with
  | ok a => exact himp a s' hr.2
  | error e => exact hr.2

theorem attains_bind {f : α → Lifecycle β} (hp : Attains backlog reported held s p Q)
    (hf : ∀ a s', Q a s' → Attains backlog reported held s' (f a) R) :
    Attains backlog reported held s (p >>= f) R := by
  refine sound_bind (sound_mono hp ?_)
  intro held' s' r hr
  obtain ⟨rfl, hQ⟩ := hr
  cases r with
  | ok a => exact hf a s' hQ
  | error e => exact hQ.elim

theorem attains_read {ρ : Type} {f : Process → ρ} {g : ρ → Lifecycle β} {a : ρ} (ha : f s = a)
    (h : Attains backlog reported held s (g a) R) : Attains backlog reported held s (read f >>= g) R := by
  subst ha
  exact sound_bind ⟨trivial, trivial, h⟩

theorem attains_write {f : Process → Process} {g : Unit → Lifecycle β}
    (h : Attains backlog reported held (f s) (g ()) R) : Attains backlog reported held s (write f >>= g) R :=
  sound_bind ⟨trivial, trivial, h⟩

theorem attains_write_last {f : Process → Process} {Q : Unit → Process → Prop} (h : Q () (f s)) :
    Attains backlog reported held s (write f) Q :=
  ⟨trivial, trivial, rfl, h⟩

theorem attains_tryCatch {handler : Failure → Lifecycle α} (hp : Attains backlog reported held s p Q) :
    Attains backlog reported held s (p.tryCatch handler) Q := by
  refine sound_tryCatch (sound_mono hp ?_)
  intro held' s' r hr
  cases r with
  | ok a => exact hr
  | error e => exact hr.2.elim

theorem attains_when {condition : Bool} {p : Lifecycle Unit} {Q : Unit → Process → Prop}
    (hp : condition = true → Attains backlog reported held s p Q) (hskip : condition = false → Q () s) :
    Attains backlog reported held s (when condition p) Q := by
  cases condition with
  | true => exact hp rfl
  | false => exact attains_pure (hskip rfl)

/-- The body of a section. -/
theorem attains_leaving {κ : Region} (hp : Attains backlog reported (κ :: held) s p Q) :
    Sound machine (undisturbed (Obliging backlog reported)) none (p.ensuring leave)
      (fun held' s' r => held' = held ∧ Returns Q (fun _ => False) r s') (κ :: held) s := by
  refine sound_ensuring (sound_mono hp ?_)
  intro held' s' r hr
  obtain ⟨rfl, hQ⟩ := hr
  exact ⟨trivial, rfl, hQ⟩

theorem attains_recovering {closed : α} (hopen : s.gateOpen = true)
    (hp : Attains backlog reported (.recovering :: held) s p Q) :
    Attains backlog reported held s (recovering closed p) Q := by
  refine sound_bind ⟨fun _ => ⟨trivial, fun _ => attains_leaving hp⟩, fun hshut => ?_⟩
  rw [hopen] at hshut
  cases hshut

theorem attains_closing (hp : Attains backlog reported (.closing :: held) s p Q) :
    Attains backlog reported held s (closing p) Q :=
  sound_bind ⟨fun _ => ⟨trivial, fun _ => attains_leaving hp⟩, fun h => by cases h⟩

/-- A wait of the machine, answered obligingly. -/
theorem attains_wait {ρ : Type} {w : Wait ρ} {Q : ρ → Process → Prop}
    (h : ∀ choice, Obliging backlog reported choice →
      ∃ a s', machine.perform choice s w = some (.ok a, s') ∧ Q a s') :
    Attains backlog reported held s (wait w) Q := by
  rintro _ rfl _
  refine ⟨fun choice reply s₂ hfair hperform => ⟨trivial, trivial, ?_⟩, fun e he => by cases he⟩
  obtain ⟨a, s', hsome, hQ⟩ := h choice hfair
  rw [hsome] at hperform
  cases hperform
  exact ⟨rfl, hQ⟩

/-- A broker call, with what the broker makes of it. -/
theorem attains_rpc {request : Rpc} {Q : Nat → Process → Prop} (hstarts : request.starts = false)
    (h : ∀ count, (backlog → 0 < count) → ∃ n broker, s.broker.act count request = some (n, broker) ∧
      Q n { s with broker := broker }) :
    Attains backlog reported held s (rpc request) Q := by
  -- a call is two waits: the broker acts, then its answer arrives
  have hact : Attains backlog reported held s (wait (.act request))
      (fun result s' => ∃ n, result = some n ∧ Q n s') := by
    refine attains_wait fun choice hchoice => ?_
    obtain ⟨n, broker, hsome, hQ⟩ := h choice.count hchoice.count
    refine ⟨some n, { s with broker := broker }, ?_, n, rfl, hQ⟩
    simp [machine, perform, hchoice.acted, hsome]
  refine attains_bind hact fun result s' hresult => ?_
  obtain ⟨n, rfl, hQ⟩ := hresult
  have hreply : Attains backlog reported held s' (wait (.reply request (some n)))
      (fun delivered s'' => delivered = true ∧ s'' = s') := by
    refine attains_wait fun choice hchoice => ⟨true, s', ?_, rfl, rfl⟩
    simp [machine, perform, hchoice.delivered, hstarts]
  refine attains_bind hreply fun delivered s'' hdelivered => ?_
  obtain ⟨rfl, rfl⟩ := hdelivered
  exact attains_pure hQ

/-- The answer to a `consume` completes the start. -/
theorem attains_consume {channel : Channel} {t : DataType} {Q : Nat → Process → Prop}
    (hopen : channel ∈ s.broker.channels)
    (hQ : Q s.broker.issued (s.registered t channel).noteStart) :
    Attains backlog reported held s (rpc (.consume channel t)) Q := by
  have hact : Attains backlog reported held s (wait (.act (.consume channel t)))
      (fun result s' => result = some s.broker.issued ∧ s' = s.registered t channel) := by
    refine attains_wait fun choice hchoice => ⟨_, _, ?_, rfl, rfl⟩
    simp [machine, perform, hchoice.acted, Broker.act, hopen, Process.registered]
  refine attains_bind hact fun result s' hresult => ?_
  obtain ⟨rfl, rfl⟩ := hresult
  have hreply : Attains backlog reported held (s.registered t channel)
      (wait (.reply (.consume channel t) (some s.broker.issued)))
      (fun delivered s'' => delivered = true ∧ s'' = (s.registered t channel).noteStart) := by
    refine attains_wait fun choice hchoice => ⟨true, _, ?_, rfl, rfl⟩
    simp [machine, perform, hchoice.delivered, Rpc.starts]
  refine attains_bind hreply fun delivered s'' hdelivered => ?_
  obtain ⟨rfl, rfl⟩ := hdelivered
  exact attains_pure hQ

/-! ## Starting one consumer -/

/-- A channel opened on the connection, not known to the loader yet. -/
def Process.opened (s : Process) (connection : Connection) : Process :=
  { s with broker := { s.broker with
    channels := ⟨connection, s.broker.issued⟩ :: s.broker.channels
    issued := s.broker.issued + 1 } }

/-- A delivery channel of its own, and a consumer on it. -/
def Process.started (s : Process) (t : DataType) (connection : Connection) : Process :=
  let channel : Channel := ⟨connection, s.broker.issued⟩
  let queued := ((s.opened connection).setDeliveryChannel t (some channel)).setQueue t channel
  (queued.registered t channel).noteStart.trackTag t (s.broker.issued + 1)

theorem openChannel_attains {connection : Connection} (hopen : connection ∈ s.broker.connections) :
    Attains backlog reported held s (rpc (.openChannel connection)) fun number s' =>
      number = s.broker.issued ∧ s' = s.opened connection :=
  attains_rpc rfl fun _ _ => ⟨_, _, by simp [Broker.act, hopen], rfl, rfl⟩

/-- A call on an open channel that changes nothing. -/
theorem attains_idle {request : Rpc} (hstarts : request.starts = false)
    (h : ∀ count, ∃ n, s.broker.act count request = some (n, s.broker)) :
    Attains backlog reported held s (rpc request) fun _ s' => s' = s := by
  refine attains_rpc hstarts fun count _ => ?_
  obtain ⟨n, hn⟩ := h count
  exact ⟨n, s.broker, hn, rfl⟩

/-- The delivery channel of the type, if it is open. -/
def Process.openDelivery (s : Process) (t : DataType) : Option Channel :=
  (s.deliveryChannels t).filter fun channel => !s.isClosed channel

theorem openDelivery_of_none {t : DataType} (h : s.deliveryChannels t = none) : s.openDelivery t = none := by
  rw [Process.openDelivery, h]
  rfl

theorem deliveryChannel_attains {t : DataType} {connection : Connection}
    (hconnection : s.activeConnection = some connection)
    (hopen : connection ∈ s.broker.connections) (hclosed : s.openDelivery t = none) :
    Attains backlog reported held s (deliveryChannel t) fun channel s' =>
      channel = ⟨connection, s.broker.issued⟩ ∧
        s' = (s.opened connection).setDeliveryChannel t (some ⟨connection, s.broker.issued⟩) := by
  refine attains_read hclosed (attains_read hconnection ?_)
  refine attains_bind (openChannel_attains hopen) ?_
  rintro _ _ ⟨rfl, rfl⟩
  refine attains_bind (attains_idle rfl fun _ => ⟨0, by simp [Broker.act, Process.opened]⟩) ?_
  rintro _ _ rfl
  exact attains_write (attains_pure ⟨rfl, rfl⟩)

theorem startTracked_attains {t : DataType} {connection : Connection}
    (hconnection : s.activeConnection = some connection)
    (hopen : connection ∈ s.broker.connections) (hclosed : s.openDelivery t = none) :
    Attains backlog reported held s (startTracked t) fun _ s' => s' = s.started t connection := by
  have hstart : Attains backlog reported held s (startConsumer t) fun tag s' =>
      s'.trackTag t tag = s.started t connection := by
    refine attains_bind (deliveryChannel_attains hconnection hopen hclosed) ?_
    rintro _ _ ⟨rfl, rfl⟩
    have hmem : (⟨connection, s.broker.issued⟩ : Channel) ∈ (s.opened connection).broker.channels :=
      List.mem_cons_self
    refine attains_bind (attains_idle rfl fun _ => ⟨0, by
      simp [Broker.act, Process.setDeliveryChannel, hmem]⟩) ?_
    rintro _ _ rfl
    exact attains_write (attains_consume hmem rfl)
  refine attains_bind hstart ?_
  intro tag s' hs'
  exact attains_write_last hs'

/-! ## Closing -/

/-- The gate is open, the process runs, no cancellation is uncertain, and there is work: a
    file that is not complete, or a backlog. -/
def Due (backlog : Prop) (s : Process) : Prop :=
  s.gateOpen = true ∧ s.shutdownRequested = false ∧ s.consumerCancellationFailed = false ∧
    (s.completedFiles.card < typeOrder.length ∨ backlog)

/-- Nothing is tracked, and no delivery channel held. -/
structure Cleared (backlog : Prop) (s : Process) : Prop where
  due : Due backlog s
  tags : ∀ t, s.consumerTags t = none
  channels : ∀ t, s.deliveryChannels t = none

/-- The tags can be given up: there is a transport to close, or there are none. -/
def Closable (s : Process) : Prop :=
  s.tagged = true → s.activeConnection.isSome = true ∨ s.heldChannels ≠ []

theorem mem_typeOrder (t : DataType) : t ∈ typeOrder := by
  cases t <;> decide

theorem tags_none (h : s.tagged = false) (t : DataType) : s.consumerTags t = none := by
  have hall := List.any_eq_false.1 h t (mem_typeOrder t)
  simpa using hall

theorem deliveryChannels_none (h : s.heldChannels = []) (t : DataType) :
    s.deliveryChannels t = none := by
  have hempty := (List.append_eq_nil_iff.1 h).1
  rw [List.filterMap_eq_nil_iff] at hempty
  exact hempty t (mem_typeOrder t)

theorem closeChannel_attains (channel : Channel) (hdue : Due backlog s) :
    Attains backlog reported held s (rpc (.closeChannel channel)) fun _ s' => Due backlog s' :=
  attains_rpc rfl fun _ _ => ⟨_, _, rfl, hdue⟩

theorem closeEachQuietly_attains (channels : List Channel) (hdue : Due backlog s) :
    Attains backlog reported held s (closeEachQuietly channels) fun closed s' =>
      closed = true ∧ Due backlog s' := by
  induction channels generalizing s with
  | nil => exact attains_pure ⟨rfl, hdue⟩
  | cons channel channels ih =>
    have hfirst : Attains backlog reported held s (confirmed (.closeChannel channel)) fun closed s' =>
        closed = true ∧ Due backlog s' :=
      attains_tryCatch (attains_bind (closeChannel_attains channel hdue)
        fun _ _ hdue => attains_pure ⟨rfl, hdue⟩)
    refine attains_bind hfirst ?_
    rintro _ s' ⟨rfl, hdue'⟩
    refine attains_bind (ih hdue') ?_
    rintro _ s'' ⟨rfl, hdue''⟩
    exact attains_pure ⟨rfl, hdue''⟩

theorem closeRecoveryTransport_attains (connection : Option Connection) (channels : List Channel)
    (hdue : Due backlog s) :
    Attains backlog reported held s (closeRecoveryTransport connection channels) fun closed s' =>
      closed = true ∧ Due backlog s' := by
  refine attains_tryCatch (attains_bind (closeEachQuietly_attains channels hdue) ?_)
  rintro _ s' ⟨rfl, hdue'⟩
  cases connection with
  | none => exact attains_pure ⟨rfl, hdue'⟩
  | some connection =>
    refine attains_bind (attains_rpc (Q := fun _ => Due backlog) rfl
      fun _ _ => ⟨_, _, rfl, hdue'⟩) ?_
    exact fun _ _ hdue => attains_pure ⟨rfl, hdue⟩

theorem closeRecoveryBroker_attains (hdue : Due backlog s) (hclosable : Closable s) :
    Attains backlog reported held s closeRecoveryBroker fun closed s' =>
      closed = true ∧ Cleared backlog s' := by
  refine attains_read rfl (attains_read rfl ?_)
  split
  · next hbare =>
    obtain ⟨hconnection, hchannels⟩ := Bool.and_eq_true_iff.1 hbare
    have hheld : s.heldChannels = [] := List.isEmpty_iff.1 hchannels
    have huntagged : s.tagged = false := by
      rw [Bool.eq_false_iff]
      intro htagged
      rcases hclosable htagged with hsome | hne
      · rw [Option.isNone_iff_eq_none] at hconnection
        rw [hconnection] at hsome
        cases hsome
      · exact hne hheld
    refine attains_read huntagged ?_
    exact attains_pure ⟨rfl, hdue, tags_none huntagged, deliveryChannels_none hheld⟩
  · refine attains_bind (closeRecoveryTransport_attains _ _ hdue) ?_
    rintro _ s' ⟨rfl, hopen, hruns, _, hwork⟩
    refine attains_write (attains_pure ⟨rfl, ⟨hopen, hruns, rfl, hwork⟩, ?_, ?_⟩)
    · exact fun _ => rfl
    · exact fun _ => rfl

/-! ## A new transport -/

/-- Connected anew, with nothing consumed yet. -/
structure Connected (backlog : Prop) (channel : Channel) (s : Process) : Prop where
  cleared : Cleared backlog s
  connection : ∃ connection ∈ s.broker.connections, s.activeConnection = some connection
  active : s.activeChannel = some channel
  opened : channel ∈ s.broker.channels

theorem openRecoveryTransport_attains (hcleared : Cleared backlog s) :
    Attains backlog reported held s openRecoveryTransport fun channel? s' =>
      ∃ channel, channel? = some channel ∧ Connected backlog channel s' := by
  obtain ⟨hdue, htags, hchannels⟩ := hcleared
  refine attains_tryCatch (attains_bind (attains_rpc (Q := fun connection s' =>
    connection ∈ s'.broker.connections ∧ Cleared backlog s') rfl fun _ _ => ?_) ?_)
  · exact ⟨_, _, rfl, List.mem_cons_self, hdue, htags, hchannels⟩
  · rintro connection s' ⟨hconnection, hdue, htags, hchannels⟩
    refine attains_write (attains_bind (openChannel_attains hconnection) ?_)
    rintro _ _ ⟨rfl, rfl⟩
    refine attains_write (attains_pure ⟨_, rfl, ⟨hdue, htags, hchannels⟩, ?_, rfl, ?_⟩)
    · exact ⟨connection, hconnection, rfl⟩
    · exact List.mem_cons_self

theorem queuesWithMessages_attains {channel : Channel} (hopen : channel ∈ s.broker.channels)
    (types : List DataType) :
    Attains backlog reported held s (queuesWithMessages channel types) fun found s' =>
      s' = s ∧ (backlog → found = types) := by
  induction types with
  | nil => exact attains_pure ⟨rfl, fun _ => rfl⟩
  | cons t types ih =>
    refine attains_bind (attains_rpc (Q := fun count s' => s' = s ∧ (backlog → 0 < count)) rfl
      fun count hcount => ⟨count, s.broker, by simp [Broker.act, hopen], rfl, hcount⟩) ?_
    rintro count _ ⟨rfl, hcount⟩
    refine attains_bind ih ?_
    rintro found _ ⟨rfl, hfound⟩
    refine attains_pure ⟨rfl, ?_⟩
    intro hbacklog
    rw [if_pos (hcount hbacklog), hfound hbacklog]

theorem onActiveChannel_attains {request : Channel → Rpc} {channel : Channel}
    (hstarts : (request channel).starts = false) (hactive : s.activeChannel = some channel)
    (h : ∀ count, ∃ n, s.broker.act count (request channel) = some (n, s.broker)) :
    Attains backlog reported held s (onActiveChannel request) fun a s' => a = channel ∧ s' = s := by
  refine attains_read hactive (attains_bind (attains_idle hstarts h) ?_)
  rintro _ _ rfl
  exact attains_pure ⟨rfl, rfl⟩

theorem declareQueues_attains (channel : Channel) (hactive : s.activeChannel = some channel)
    (hopen : channel ∈ s.broker.channels) (types : List DataType) :
    Attains backlog reported held s (declareQueues types) fun _ s' =>
      ∃ queues, s' = { s with queues := queues } ∧
        ∀ t, t ∈ types ∨ (s.queues t).isSome = true → (queues t).isSome = true := by
  induction types generalizing s with
  | nil =>
    refine attains_pure ⟨s.queues, rfl, ?_⟩
    intro t ht
    exact ht.resolve_left (List.not_mem_nil)
  | cons t types ih =>
    have hcall : ∀ request : Channel → Rpc, (request channel).starts = false →
        (∀ count, s.broker.act count (request channel) = some (0, s.broker)) →
        Attains backlog reported held s (onActiveChannel request) fun a s' => a = channel ∧ s' = s :=
      fun request hstarts h => onActiveChannel_attains hstarts hactive fun count => ⟨0, h count⟩
    have hbind : ∀ destination, Attains backlog reported held s (rpc (.bindQueue channel destination))
        fun _ s' => s' = s :=
      fun destination => attains_idle rfl fun _ => ⟨0, by simp [Broker.act, hopen]⟩
    refine attains_bind (hcall (.declareExchange · ⟨t, false⟩) rfl (by simp [Broker.act, hopen])) ?_
    rintro _ _ ⟨rfl, rfl⟩
    refine attains_bind (hcall (.declareExchange · ⟨t, true⟩) rfl (by simp [Broker.act, hopen])) ?_
    rintro _ _ ⟨rfl, rfl⟩
    refine attains_bind (hcall (.declareQueue · ⟨t, true⟩) rfl (by simp [Broker.act, hopen])) ?_
    rintro _ _ ⟨rfl, rfl⟩
    refine attains_bind (hbind ⟨t, true⟩) ?_
    rintro _ _ rfl
    refine attains_bind (hcall (.declareQueue · ⟨t, false⟩) rfl (by simp [Broker.act, hopen])) ?_
    rintro _ _ ⟨rfl, rfl⟩
    refine attains_bind (hbind ⟨t, false⟩) ?_
    rintro _ _ rfl
    refine attains_write (Attains.mono (ih ?_ ?_) ?_)
    · exact hactive
    · exact hopen
    rintro _ _ ⟨queues, rfl, hqueues⟩
    refine ⟨queues, rfl, ?_⟩
    intro t' ht'
    apply hqueues t'
    by_cases heq : t' = t
    · subst heq
      right
      rw [Process.setQueue_self]
      rfl
    · rw [Process.setQueue_of_ne _ _ heq]
      exact ht'.imp_left fun hmem => (List.mem_cons.1 hmem).resolve_left heq

/-! ## Every type back -/

/-- The type is consumed on a delivery channel of its own. -/
def Served (t : DataType) (s : Process) : Prop :=
  ∃ tag channel, s.consumerTags t = some tag ∧ s.deliveryChannels t = some channel ∧
    s.queues t = some channel ∧ channel ∈ s.broker.channels ∧
    ⟨tag, channel, t⟩ ∈ s.broker.subscriptions ∧
    s.activeConnection = some channel.connection

/-- No two types share a delivery channel, and the next channel is a new one. -/
structure Distinct (s : Process) : Prop where
  numbers : ∀ t channel, s.deliveryChannels t = some channel → channel.number < s.broker.issued
  apart : ∀ t t' channel, s.deliveryChannels t = some channel →
    s.deliveryChannels t' = some channel → t = t'

/-- Connected, with every type consumed but the `types`, which have neither a tag nor a
    channel. -/
structure Partial (backlog : Prop) (types : List DataType) (s : Process) : Prop where
  due : Due backlog s
  connection : ∃ connection ∈ s.broker.connections, s.activeConnection = some connection
  queues : ∀ t, (s.queues t).isSome = true
  distinct : Distinct s
  missing : ∀ t ∈ types, s.consumerTags t = none ∧ s.deliveryChannels t = none
  served : ∀ t, t ∉ types → Served t s

/-- Every type is consumed. -/
abbrev Serving (backlog : Prop) (s : Process) : Prop := Partial backlog [] s

theorem Served.started {t t' : DataType} {connection : Connection} (h : Served t' s) (hne : t' ≠ t) :
    Served t' (s.started t connection) := by
  obtain ⟨tag, channel, htag, hdelivery, hqueue, hopen, hlive, hconnection⟩ := h
  refine ⟨tag, channel, ?_, ?_, ?_, ?_, ?_, hconnection⟩
  · exact (Process.setTag_of_ne _ _ hne).trans htag
  · exact (Process.setDeliveryChannel_of_ne _ _ hne).trans hdelivery
  · exact (Process.setQueue_of_ne _ _ hne).trans hqueue
  · exact List.mem_cons_of_mem _ hopen
  · exact List.mem_cons_of_mem _ hlive

theorem served_started {t : DataType} {connection : Connection}
    (hconnection : s.activeConnection = some connection) : Served t (s.started t connection) :=
  ⟨s.broker.issued + 1, ⟨connection, s.broker.issued⟩, Process.setTag_self _ _,
    Process.setDeliveryChannel_self _ _, Process.setQueue_self _ _, List.mem_cons_self,
    List.mem_cons_self, hconnection⟩

/-- Dropping channels leaves the rest distinct. -/
theorem Distinct.dropped {s' : Process} (h : Distinct s)
    (hchannels : ∀ t channel, s'.deliveryChannels t = some channel →
      s.deliveryChannels t = some channel) (hissued : s.broker.issued ≤ s'.broker.issued) :
    Distinct s' where
  numbers t channel hchannel := (h.numbers t channel (hchannels t channel hchannel)).trans_le hissued
  apart t t' channel hchannel hchannel' :=
    h.apart t t' channel (hchannels t channel hchannel) (hchannels t' channel hchannel')

/-- The channel of a consumer that starts is newer than every other. -/
theorem Distinct.started {t : DataType} {connection : Connection} (h : Distinct s) :
    Distinct (s.started t connection) := by
  have hothers : ∀ t', t' ≠ t →
      (s.started t connection).deliveryChannels t' = s.deliveryChannels t' :=
    fun t' hne => Process.setDeliveryChannel_of_ne _ _ hne
  have hself : (s.started t connection).deliveryChannels t = some ⟨connection, s.broker.issued⟩ :=
    Process.setDeliveryChannel_self _ _
  have hissued : s.broker.issued < (s.started t connection).broker.issued :=
    Nat.lt_add_of_pos_right (by decide : 0 < 2)
  constructor
  · intro t' channel hchannel
    by_cases heq : t' = t
    · rw [heq, hself] at hchannel
      cases hchannel
      exact hissued
    · rw [hothers t' heq] at hchannel
      exact (h.numbers t' channel hchannel).trans hissued
  · intro t₁ t₂ channel h₁ h₂
    by_cases heq₁ : t₁ = t
    · by_cases heq₂ : t₂ = t
      · exact heq₁.trans heq₂.symm
      · rw [heq₁, hself] at h₁
        rw [hothers t₂ heq₂] at h₂
        cases h₁
        exact absurd (h.numbers t₂ _ h₂) (lt_irrefl _)
    · by_cases heq₂ : t₂ = t
      · rw [heq₂, hself] at h₂
        rw [hothers t₁ heq₁] at h₁
        cases h₂
        exact absurd (h.numbers t₁ _ h₁) (lt_irrefl _)
      · rw [hothers t₁ heq₁] at h₁
        rw [hothers t₂ heq₂] at h₂
        exact h.apart t₁ t₂ channel h₁ h₂

theorem Partial.started {t : DataType} {types : List DataType} {connection : Connection}
    (h : Partial backlog (t :: types) s) (hfresh : t ∉ types)
    (hconnection : s.activeConnection = some connection) :
    Partial backlog types (s.started t connection) := by
  refine ⟨h.due, h.connection, ?_, h.distinct.started, ?_, ?_⟩
  · intro t'
    by_cases heq : t' = t
    · subst heq
      exact congrArg Option.isSome (Process.setQueue_self _ _)
    · exact (congrArg Option.isSome (Process.setQueue_of_ne _ _ heq)).trans (h.queues t')
  · intro t' hmem
    have hne : t' ≠ t := fun heq => hfresh (heq ▸ hmem)
    obtain ⟨htag, hchannel⟩ := h.missing t' (List.mem_cons_of_mem _ hmem)
    exact ⟨(Process.setTag_of_ne _ _ hne).trans htag,
      (Process.setDeliveryChannel_of_ne _ _ hne).trans hchannel⟩
  · intro t' hmem
    by_cases heq : t' = t
    · rw [heq]
      exact served_started hconnection
    · have hserved := h.served t' fun hcons => (List.mem_cons.1 hcons).elim heq hmem
      exact hserved.started heq

/-- A file that has a backlog is not complete. -/
theorem Partial.uncompleted {types : List DataType} (h : Partial backlog types s) (t : DataType) :
    Partial backlog types { s with completedFiles := s.completedFiles.erase t } := by
  obtain ⟨hopen, hruns, hsure, hwork⟩ := h.due
  refine ⟨⟨hopen, hruns, hsure, ?_⟩, h.connection, h.queues,
    ⟨h.distinct.numbers, h.distinct.apart⟩, h.missing, h.served⟩
  exact hwork.imp_left (Finset.card_erase_le.trans_lt ·)

theorem startAllMissing_attains (waiting : List DataType) {types : List DataType}
    (hnodup : types.Nodup) (h : Partial backlog types s) :
    Attains backlog reported held s (startAllMissing waiting types) fun _ s' => Serving backlog s' := by
  induction types generalizing s with
  | nil => exact attains_pure h
  | cons t types ih =>
    obtain ⟨hfresh, hrest⟩ := List.nodup_cons.1 hnodup
    obtain ⟨htag, hchannel⟩ := h.missing t List.mem_cons_self
    obtain ⟨connection, hopen, hconnection⟩ := h.connection
    have hmissing : ((s.queues t).isSome && (s.consumerTags t).isNone) = true := by
      rw [h.queues t, htag]
      rfl
    have hfirst : Attains backlog reported held s (startMissing waiting t) fun _ s' =>
        Partial backlog types s' := by
      refine attains_read hmissing ?_
      refine attains_bind (startTracked_attains hconnection hopen (openDelivery_of_none hchannel)) ?_
      rintro _ _ rfl
      have hstarted := h.started hfresh hconnection
      exact attains_when (fun _ => attains_write_last (hstarted.uncompleted t)) fun _ => hstarted
    exact attains_bind hfirst fun _ _ hs' => ih hrest hs'

/-- Some type is listed as incomplete while fewer than all are complete. -/
theorem incomplete_isEmpty (h : s.completedFiles.card < typeOrder.length) :
    (typeOrder.filter (· ∉ s.completedFiles)).isEmpty = false := by
  rw [List.isEmpty_eq_false_iff]
  intro hempty
  have hall : typeOrder.toFinset ⊆ s.completedFiles := by
    intro t _
    by_contra hmem
    have hin : t ∈ typeOrder.filter (· ∉ s.completedFiles) :=
      List.mem_filter.2 ⟨mem_typeOrder t, decide_eq_true hmem⟩
    rw [hempty] at hin
    cases hin
  exact absurd (Finset.card_le_card hall) (not_le.2 h)

theorem Due.finds_work {waiting : List DataType} (h : Due backlog s)
    (hwaiting : backlog → waiting = typeOrder) :
    (!waiting.isEmpty || !(typeOrder.filter (· ∉ s.completedFiles)).isEmpty) = true := by
  rcases h.2.2.2 with hcard | hbacklog
  · rw [incomplete_isEmpty hcard]
    exact Bool.or_true _
  · rw [hwaiting hbacklog]
    rfl

theorem restartConsumers_attains {channel : Channel} (h : Connected backlog channel s) :
    Attains backlog reported held s (restartConsumers channel) fun _ s' => Serving backlog s' := by
  refine attains_bind (queuesWithMessages_attains h.opened typeOrder) ?_
  rintro waiting s₁ ⟨hs₁, hwaiting⟩
  rw [hs₁]
  refine attains_read rfl ?_
  rw [if_pos (h.cleared.due.finds_work hwaiting)]
  have hqos : Attains backlog reported held s (onActiveChannel .setQos) fun a s' => a = channel ∧ s' = s :=
    onActiveChannel_attains rfl h.active fun _ => ⟨0, by simp [Broker.act, h.opened]⟩
  refine attains_bind hqos ?_
  rintro _ s₂ ⟨_, hs₂⟩
  rw [hs₂]
  refine attains_write (attains_bind (declareQueues_attains channel ?_ ?_ typeOrder) ?_)
  · exact h.active
  · exact h.opened
  rintro _ _ ⟨queues, rfl, hqueues⟩
  have hnone : ∀ t c, s.deliveryChannels t ≠ some c := by
    intro t c hc
    rw [h.cleared.channels t] at hc
    cases hc
  refine startAllMissing_attains waiting (by decide)
    ⟨h.cleared.due, h.connection, ?_, ⟨?_, ?_⟩, ?_, ?_⟩
  · exact fun t => hqueues t (.inl (mem_typeOrder t))
  · exact fun t c hc => absurd hc (hnone t c)
  · exact fun t t' c hc => absurd hc (hnone t c)
  · exact fun t _ => ⟨h.cleared.tags t, h.cleared.channels t⟩
  · exact fun t hmem => absurd (mem_typeOrder t) hmem

/-- `_recover_consumers`, with work to do and a transport that can be closed, brings every
    type back. -/
theorem recoverConsumers_attains (hdue : Due backlog s) (hclosable : Closable s) :
    Attains backlog reported held s recoverConsumers fun _ s' => Serving backlog s' := by
  refine attains_recovering hdue.1 (attains_bind (closeRecoveryBroker_attains hdue hclosable) ?_)
  rintro _ s' ⟨rfl, hcleared⟩
  refine attains_bind (openRecoveryTransport_attains hcleared) ?_
  rintro _ s'' ⟨channel, rfl, hconnected⟩
  exact attains_tryCatch (restartConsumers_attains hconnected)

/-! ## The round -/

/-- The transport is gone and nothing is tracked. -/
structure Down (backlog : Prop) (s : Process) : Prop where
  due : Due backlog s
  tags : ∀ t, s.consumerTags t = none
  connection : s.activeConnection = none

theorem Down.untagged (h : Down backlog s) : s.tagged = false := by
  rw [Process.tagged, List.any_eq_false]
  intro t _
  rw [h.tags t]
  exact Bool.false_ne_true

theorem Down.closable (h : Down backlog s) : Closable s := by
  intro htagged
  rw [h.untagged] at htagged
  cases htagged

theorem Partial.tagged (h : Serving backlog s) : s.tagged = true := by
  obtain ⟨tag, _, htag, _⟩ := h.served .artists List.not_mem_nil
  refine List.any_eq_true.2 ⟨.artists, by decide, ?_⟩
  rw [htag]
  rfl

theorem recoverParkedMarkers_attains (h : Down backlog s) :
    Attains backlog reported held s recoverParkedMarkers fun _ s' => Serving backlog s' ∨ Down backlog s' := by
  refine attains_read rfl (attains_read rfl ?_)
  split
  · exact attains_pure (.inr h)
  · refine attains_recovering h.due.1 (attains_read rfl ?_)
    rw [h.connection]
    exact (recoverConsumers_attains h.due h.closable).mono fun _ _ hs => .inl hs

/-- Closing the channel of a type leaves the others. -/
theorem Partial.closed {t : DataType} {channel : Channel} (h : Serving backlog s)
    (hchannel : s.deliveryChannels t = some channel) :
    Partial backlog [t] (({ s.setDeliveryChannel t none with
      broker := s.broker.endChannel channel } : Process).untrackTag t) := by
  have hothers : ∀ t', t' ≠ t → (s.setDeliveryChannel t none).deliveryChannels t' =
      s.deliveryChannels t' := fun t' hne => s.setDeliveryChannel_of_ne none hne
  have hself : (s.setDeliveryChannel t none).deliveryChannels t = none :=
    s.setDeliveryChannel_self none
  have hold : ∀ t' c, (s.setDeliveryChannel t none).deliveryChannels t' = some c →
      s.deliveryChannels t' = some c := by
    intro t' c hc
    by_cases heq : t' = t
    · rw [heq, hself] at hc
      cases hc
    · rwa [hothers t' heq] at hc
  refine ⟨h.due, h.connection, h.queues, h.distinct.dropped hold le_rfl, ?_, ?_⟩
  · intro t' hmem
    rw [List.mem_singleton.1 hmem]
    exact ⟨Process.setTag_self _ _, hself⟩
  · intro t' hmem
    have hne : t' ≠ t := fun heq => hmem (List.mem_singleton.2 heq)
    obtain ⟨tag, c, htag, hdelivery, hqueue, hopen, hlive, hconnection⟩ :=
      h.served t' List.not_mem_nil
    have hapart : c ≠ channel := by
      rintro rfl
      exact hne (h.distinct.apart t' t c hdelivery hchannel)
    refine ⟨tag, c, ?_, ?_, hqueue, ?_, ?_, hconnection⟩
    · exact (Process.setTag_of_ne _ _ hne).trans htag
    · exact (hothers t' hne).trans hdelivery
    · exact List.mem_filter.2 ⟨hopen, decide_eq_true hapart⟩
    · exact List.mem_filter.2 ⟨hlive, decide_eq_true hapart⟩

theorem closeOldChannel_attains {t : DataType} (channel : Channel) :
    Attains backlog reported held s (closeOldChannel t (some channel)) fun closed s' =>
      closed = true ∧ s' = { s with broker := s.broker.endChannel channel } := by
  refine attains_tryCatch (attains_bind (attains_rpc (Q := fun _ s' => s' = _) rfl
    fun _ _ => ⟨_, _, rfl, rfl⟩) ?_)
  rintro _ _ rfl
  exact attains_pure ⟨rfl, rfl⟩

theorem replaceConsumer_serving {t : DataType} (h : Serving backlog s) :
    Attains backlog reported held s (replaceConsumer t) fun recovered s' =>
      recovered = true ∧ Serving backlog s' := by
  obtain ⟨tag, channel, htag, hchannel, _⟩ := h.served t List.not_mem_nil
  obtain ⟨connection, hopen, hconnection⟩ := h.connection
  refine attains_read hchannel (attains_write (attains_read htag ?_))
  refine attains_bind (closeOldChannel_attains channel) ?_
  rintro _ _ ⟨rfl, rfl⟩
  refine attains_write (attains_read hconnection ?_)
  have hpartial := h.closed hchannel
  obtain ⟨_, hfree⟩ := hpartial.missing t List.mem_cons_self
  refine attains_tryCatch (attains_bind (startTracked_attains hconnection hopen
    (openDelivery_of_none hfree)) ?_)
  rintro _ _ rfl
  exact attains_pure ⟨rfl, hpartial.started List.not_mem_nil hconnection⟩

/-- With the transport gone a type is not replaced alone. -/
theorem replaceConsumer_down {t : DataType} (h : Down backlog s) :
    Attains backlog reported held s (replaceConsumer t) fun recovered s' =>
      recovered = false ∧ Down backlog s' := by
  obtain ⟨hdue, htags, hconnection⟩ := h
  refine attains_read rfl (attains_write (attains_read (htags t) ?_))
  have hclose : Attains backlog reported held (s.setDeliveryChannel t none)
      (closeOldChannel t (s.deliveryChannels t)) fun closed s' => closed = true ∧ Down backlog s' := by
    cases s.deliveryChannels t with
    | none => exact attains_pure ⟨rfl, hdue, htags, hconnection⟩
    | some channel =>
      refine attains_tryCatch (attains_bind (attains_rpc (Q := fun _ => Down backlog) rfl
        fun _ _ => ⟨_, _, rfl, hdue, htags, hconnection⟩) ?_)
      exact fun _ _ hs => attains_pure ⟨rfl, hs⟩
  refine attains_bind hclose ?_
  rintro _ s' ⟨rfl, hs'⟩
  exact attains_read hs'.connection (attains_pure ⟨rfl, hs'⟩)

theorem recoverDataType_serving {t : DataType} (h : Serving backlog s) :
    Attains backlog reported held s (recoverDataType t) fun recovered s' =>
      recovered = true ∧ Serving backlog s' :=
  attains_recovering h.due.1 (replaceConsumer_serving h)

theorem recoverDataType_down {t : DataType} (h : Down backlog s) :
    Attains backlog reported held s (recoverDataType t) fun recovered s' =>
      recovered = false ∧ Down backlog s' :=
  attains_recovering h.due.1 (replaceConsumer_down h)

theorem recoverEach_serving (types : List DataType) (h : Serving backlog s) :
    Attains backlog reported held s (recoverEach types) fun recovered s' =>
      recovered = true ∧ Serving backlog s' := by
  induction types generalizing s with
  | nil => exact attains_pure ⟨rfl, h⟩
  | cons t types ih =>
    refine attains_bind (recoverDataType_serving h) ?_
    rintro _ s' ⟨rfl, hs'⟩
    refine attains_bind (ih hs') ?_
    rintro _ s'' ⟨rfl, hs''⟩
    exact attains_pure ⟨rfl, hs''⟩

theorem recoverEach_down (types : List DataType) (h : Down backlog s) :
    Attains backlog reported held s (recoverEach types) fun recovered s' =>
      (recovered = true → types = []) ∧ Down backlog s' := by
  induction types generalizing s with
  | nil => exact attains_pure ⟨fun _ => rfl, h⟩
  | cons t types ih =>
    refine attains_bind (recoverDataType_down h) ?_
    rintro _ s' ⟨rfl, hs'⟩
    refine attains_bind (ih hs') ?_
    rintro rest s'' ⟨_, hs''⟩
    exact attains_pure ⟨fun htrue => (by cases htrue), hs''⟩

/-- The lost types of a look, in order, are none only if none is lost. -/
theorem lost_ne_nil {lost : Finset DataType} (h : lost ≠ ∅) : typeOrder.filter (· ∈ lost) ≠ [] := by
  obtain ⟨t, ht⟩ := Finset.nonempty_iff_ne_empty.2 h
  intro hempty
  have hin : t ∈ typeOrder.filter (· ∈ lost) :=
    List.mem_filter.2 ⟨mem_typeOrder t, decide_eq_true ht⟩
  rw [hempty] at hin
  cases hin

theorem checkStuck_attains {clock : Clock} (hfull : clock.fullCheck = true)
    (h : Serving backlog s ∨ Down backlog s) :
    Attains backlog reported held s (checkStuck clock) fun _ s' => Serving backlog s' := by
  have hlook : Attains backlog reported held s (wait .lostConsumerTypes) fun _ s' => s' = s := by
    refine attains_wait fun choice hchoice => ⟨choice.lost, s, ?_, rfl⟩
    simp [machine, perform, whenHealthy, hchoice.healthy]
  refine attains_bind hlook ?_
  intro lost s' hs'
  rw [hs']
  split
  · next hlost =>
    rcases h with hserving | hdown
    · refine attains_bind (recoverEach_serving _ hserving) ?_
      rintro _ s'' ⟨rfl, hs''⟩
      exact attains_pure hs''
    · refine attains_bind (recoverEach_down _ hdown) ?_
      rintro recovered s'' ⟨hnone, hs''⟩
      refine attains_when (fun _ => recoverConsumers_attains hs''.due hs''.closable) ?_
      intro hskip
      have hrecovered : recovered = true := by simpa using hskip
      exact absurd (hnone hrecovered) (lost_ne_nil hlost)
  · rcases h with hserving | hdown
    · have halive : s.consumersUnexpectedlyDead = false := by
        rw [Process.consumersUnexpectedlyDead, hserving.tagged]
        rfl
      refine attains_read halive ?_
      refine attains_when (fun _ => ?_) fun _ => hserving
      refine attains_read (a := true) ?_ (attains_pure hserving)
      rw [hserving.tagged]
      exact Bool.or_true _
    · refine attains_read rfl ?_
      split
      · exact recoverConsumers_attains hdown.due hdown.closable
      · rw [hfull]
        refine attains_read (a := false) ?_ (recoverConsumers_attains hdown.due hdown.closable)
        rw [hdown.connection, hdown.untagged]
        rfl

/-! ### After an uncertain cancellation -/

/-- As `Due`, but a cancellation may be uncertain. -/
def Ongoing (backlog : Prop) (s : Process) : Prop :=
  s.gateOpen = true ∧ s.shutdownRequested = false ∧
    (s.completedFiles.card < typeOrder.length ∨ backlog)

theorem closeEach_attains (channels : List Channel) :
    Attains backlog reported held s (closeEach channels) fun _ s' =>
      ∃ broker, s' = { s with broker := broker } := by
  induction channels generalizing s with
  | nil => exact attains_pure ⟨s.broker, rfl⟩
  | cons channel channels ih =>
    refine attains_bind (attains_rpc (Q := fun _ s' => ∃ broker, s' = { s with broker := broker }) rfl
      fun _ _ => ⟨_, _, rfl, _, rfl⟩) ?_
    rintro _ _ ⟨_, rfl⟩
    exact ih

/-- The process without its transport, whatever is left of it at the broker. -/
def Process.disconnected (s : Process) (broker : Broker) : Process :=
  { s.dropChannels with activeConnection := none, broker := broker }

theorem closeTransport_attains (channels : List Channel) :
    Attains backlog reported held s (closeTransport s.activeConnection channels) fun closed s' =>
      closed = true ∧ ∃ broker, s' = s.disconnected broker := by
  refine attains_tryCatch ?_
  cases hconnection : s.activeConnection with
  | none =>
    refine attains_bind (closeEach_attains channels) ?_
    rintro _ _ ⟨broker, rfl⟩
    refine attains_write (attains_pure ⟨rfl, broker, ?_⟩)
    simp [Process.disconnected, Process.dropChannels, hconnection]
  | some connection =>
    refine attains_bind (attains_rpc (Q := fun _ s' => ∃ broker, s' = { s with broker := broker }) rfl
      fun _ _ => ⟨_, _, rfl, _, rfl⟩) ?_
    rintro _ _ ⟨broker, rfl⟩
    exact attains_write (attains_pure ⟨rfl, broker, rfl⟩)

theorem resetDurableBroker_attains (hclosable : Closable s) :
    Attains backlog reported held s resetDurableBroker fun closed s' =>
      closed = true ∧ ∃ broker, s' = (s.disconnected broker).forgetTags := by
  refine attains_read rfl (attains_read rfl (attains_read rfl ?_))
  split
  · next hbare =>
    simp only [Bool.and_eq_true, Option.isNone_iff_eq_none, List.isEmpty_iff] at hbare
    obtain ⟨⟨hconnection, hchannels⟩, htagged⟩ := hbare
    rcases hclosable htagged with hsome | hne
    · rw [hconnection] at hsome
      cases hsome
    · exact absurd hchannels hne
  · refine attains_bind (closeTransport_attains _) ?_
    rintro _ _ ⟨rfl, broker, rfl⟩
    exact attains_write (attains_pure ⟨rfl, broker, rfl⟩)

/-- Consumption has stopped: some cancellation is uncertain and its transport still held,
    or the transport is gone. -/
structure Stopped (backlog : Prop) (s : Process) : Prop where
  ongoing : Ongoing backlog s
  closable : Closable s
  gone : s.consumerCancellationFailed = true ∨ s.tagged = false ∧ s.activeConnection = none

theorem Stopped.down (h : Stopped backlog s) (hsure : s.consumerCancellationFailed = false) :
    Down backlog s := by
  rcases h.gone with hfailed | ⟨huntagged, hconnection⟩
  · rw [hsure] at hfailed
    cases hfailed
  · obtain ⟨hopen, hruns, hwork⟩ := h.ongoing
    exact ⟨⟨hopen, hruns, hsure, hwork⟩, tags_none huntagged, hconnection⟩

theorem Cleared.closable (h : Cleared backlog s) : Closable s := by
  intro htagged
  obtain ⟨t, _, ht⟩ := List.any_eq_true.1 htagged
  rw [h.tags t] at ht
  cases ht

theorem queueCheck_attains (h : Stopped backlog s) :
    Attains backlog reported held s queueCheck fun _ s' => Serving backlog s' := by
  have hsleep : Attains backlog reported held s (wait .sleep) fun clock s' =>
      s' = s ∧ clock.stuckCheck = true ∧ clock.fullCheck = true :=
    attains_wait fun choice hchoice =>
      ⟨choice.clock, s, rfl, rfl, hchoice.stuckCheck, hchoice.fullCheck⟩
  refine attains_tryCatch (attains_bind hsleep ?_)
  rintro clock s' ⟨hs', hstuck, hfull⟩
  rw [hs']
  refine attains_read h.ongoing.1 (attains_when (fun _ => ?_) fun hshut => by cases hshut)
  refine attains_read rfl ?_
  split
  · refine attains_bind (attains_closing (resetDurableBroker_attains h.closable)) ?_
    rintro _ _ ⟨rfl, broker, rfl⟩
    obtain ⟨hopen, hruns, hwork⟩ := h.ongoing
    have hcleared : Cleared backlog (s.disconnected broker).forgetTags :=
      ⟨⟨hopen, hruns, rfl, hwork⟩, fun _ => rfl, fun _ => rfl⟩
    exact recoverConsumers_attains hcleared.due hcleared.closable
  · next hsure =>
    refine attains_bind (recoverParkedMarkers_attains (h.down (Bool.eq_false_iff.2 hsure))) ?_
    intro _ s'' hs''
    rw [hstuck]
    exact checkStuck_attains hfull hs''

end

/-! ## Runs -/

/-- A job that has the loop to itself, and obliging answers, ends as it attains. -/
theorem round_finishes {backlog : Prop} {reported : Finset DataType → Prop} {l : Loader} {Q : Process → Prop}
    (job : Job) (hquiet : l.Quiescent)
    (h : Attains backlog reported [] l.shared (machine.program job) fun _ => Q) {answers : Nat → Choice}
    (hanswers : ∀ i, Obliging backlog reported (answers i)) :
    ∃ n l', runWhile (EventLoop.step machine) (EventLoop.Admits machine Alone Confirmed) l
        (.start job :: EventLoop.answering l.tasks.length answers n) = some l' ∧
      l'.Quiescent ∧ Q l'.shared := by
  have hround : Sound machine (undisturbed (Obliging backlog reported)) none (machine.program job)
      (fun held s _ => held = [] ∧ Q s) [] l.shared := by
    refine sound_mono h ?_
    intro held s r hr
    refine ⟨hr.1, ?_⟩
    cases r with
    | ok a => exact hr.2
    | error e => exact hr.2.elim
  exact EventLoop.job_finishes hquiet (fun choice s ρ w => perform_total choice s w) hround hanswers
    (Obliging.permissive hanswers)

/-- No type has two live subscriptions. -/
theorem nodup_liveTypes {l₀ l : Loader} (hstart : Subscribed l₀)
    (hrun : EventLoop.Run machine (EventLoop.Admits machine Alone Confirmed) l₀ l) : (liveTypes l).Nodup :=
  Orderly.single (EventLoop.run_kept orderlyDiscipline_lawful job_orderly hstart.kept hrun).inv

/-- Whatever the loader has been through, once no task is under way, the gate is open, there is work
    and the broker answers again, one round of the checker with both its checks due gives every
    type its consumer back, and no type a second one. -/
theorem round_restores_consumers {backlog : Prop} {l₀ l : Loader} (hstart : Subscribed l₀)
    (hrun : EventLoop.Run machine (EventLoop.Admits machine Alone Confirmed) l₀ l)
    (hquiet : l.Quiescent) (hstopped : Stopped backlog l.shared) (answers : Nat → Choice)
    (hanswers : ∀ i, Obliging backlog (fun _ => True) (answers i)) :
    ∃ n l', runWhile (EventLoop.step machine) (EventLoop.Admits machine Alone Confirmed) l
        (.start .queueCheck :: EventLoop.answering l.tasks.length answers n) = some l' ∧
      l'.Quiescent ∧ (∀ t, Served t l'.shared) ∧ (liveTypes l').Nodup := by
  obtain ⟨n, l', heval, hquiet', hserving⟩ :=
    round_finishes .queueCheck hquiet (queueCheck_attains hstopped) hanswers
  refine ⟨n, l', heval, hquiet', fun t => hserving.served t List.not_mem_nil, ?_⟩
  exact nodup_liveTypes hstart (hrun.trans (runOf_of_runWhile _ _ heval))

/-- A recovery that could not connect: three files are not complete, and nothing is left of
    the old transport. -/
def fallen : Process :=
  { attached with
    consumerTags := fun _ => none
    deliveryChannels := fun _ => none
    activeConnection := none
    activeChannel := none
    broker := ⟨[], [], [], 4⟩
    consumersActive := 0 }

/-- The broker is back, with a message in every queue. -/
def obligingly : Choice := { smoothly with clock := ⟨true, true⟩ }

theorem round_restores_consumers_fallen :
    ∃ n l', runWhile (EventLoop.step machine) (EventLoop.Admits machine Alone Confirmed)
        (⟨fallen, []⟩ : Loader)
        (.start .queueCheck :: EventLoop.answering 0 (fun _ => obligingly) n) = some l' ∧
      l'.Quiescent ∧ (∀ t, Served t l'.shared) ∧ (liveTypes l').Nodup := by
  have htags : ∀ t tag, fallen.consumerTags t = some tag → tag < fallen.broker.issued :=
    fun t tag ht => by cases ht
  have hstart : Subscribed ⟨fallen, []⟩ :=
    ⟨rfl, tracked_of_none rfl htags fun t channel ht => by cases ht⟩
  have hstopped : Stopped False fallen :=
    ⟨⟨rfl, rfl, .inl (by decide)⟩, fun htagged => absurd htagged (by decide), .inr ⟨by decide, rfl⟩⟩
  exact round_restores_consumers hstart .refl (fun task hmem => by cases hmem) hstopped
    (fun _ => obligingly) fun _ => ⟨rfl, rfl, rfl, rfl, rfl, trivial, fun hfalse => hfalse.elim⟩

end Tableinator.Consumers
