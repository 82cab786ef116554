import Tableinator.Consumers.Watch

/-! # Resumption

The end of a pause.  A failed handoff cancels every consumer, whatever the broker answers,
and closes the gate; one round of the recovery loop that the database and the broker
answer opens it again and gives back every consumer the pause took. -/

namespace Tableinator.Consumers

open Effect Effect.Program Effect.Routine

section

variable {backlog : Prop} {reported : Finset DataType → Prop} {held : List Region} {α : Type}
  {s s' : Process} {t t' : DataType} {connection : Connection} {channel : Channel}
  {Q : α → Process → Prop}

theorem attains_withPauseLock {p : Lifecycle α}
    (hp : Attains backlog reported (.pauseLock :: held) s p Q) :
    Attains backlog reported held s (withPauseLock p) Q := by
  refine sound_bind ⟨trivial, ?_⟩
  rintro _ rfl _
  exact ⟨fun _ => attains_leaving hp, fun e he => by cases he⟩

/-! ## A consumer resumed -/

theorem openDelivery_eq_some : s.openDelivery t = some channel ↔
    s.deliveryChannels t = some channel ∧ channel ∈ s.broker.channels := by
  simp [Process.openDelivery, Process.isClosed, Option.filter_eq_some_iff]

/-- Nothing but the consumers of one type and their channel changes. -/
structure Resumed (t : DataType) (s s' : Process) : Prop where
  gate : s'.gateOpen = s.gateOpen
  resume : s'.durableRefreshResumeTypes = s.durableRefreshResumeTypes
  connection : s'.activeConnection = s.activeConnection
  connections : s'.broker.connections = s.broker.connections
  linked : Linked s → Linked s'
  served : Linked s → Served t s'
  others : ∀ t', t' ≠ t → s'.consumerTags t' = s.consumerTags t' ∧ s'.queues t' = s.queues t' ∧
    (Served t' s → Served t' s')

theorem resumed_reuses (hchannel : s.openDelivery t = some channel) :
    Resumed t s (((s.setQueue t channel).registered t channel).noteStart.trackTag t s.broker.issued) := by
  obtain ⟨hdelivery, hopen⟩ := openDelivery_eq_some.1 hchannel
  refine ⟨rfl, rfl, rfl, rfl, fun hlinked => hlinked, fun hlinked => ?_, fun t' hne => ⟨?_, ?_, ?_⟩⟩
  · exact ⟨s.broker.issued, channel, Process.setTag_self _ _, hdelivery, Process.setQueue_self _ _, hopen,
      List.mem_cons_self, hlinked t channel hdelivery⟩
  · exact Process.setTag_of_ne _ _ hne
  · exact Process.setQueue_of_ne _ _ hne
  · rintro ⟨tag, channel', htag, hdelivery', hqueue, hopen', hlive, hconnection⟩
    exact ⟨tag, channel', (Process.setTag_of_ne _ _ hne).trans htag, hdelivery',
      (Process.setQueue_of_ne _ _ hne).trans hqueue, hopen', List.mem_cons_of_mem _ hlive, hconnection⟩

theorem resumed_started (hconnection : s.activeConnection = some connection) :
    Resumed t s (s.started t connection) := by
  refine ⟨rfl, rfl, rfl, rfl, fun hlinked => ?_, fun _ => served_started hconnection,
    fun t' hne => ⟨?_, ?_, fun h => h.started hne⟩⟩
  · intro t' channel hchannel
    by_cases heq : t' = t
    · subst heq
      have hnew : (s.started t' connection).deliveryChannels t' = some ⟨connection, s.broker.issued⟩ :=
        Process.setDeliveryChannel_self _ _
      rw [hnew] at hchannel
      cases hchannel
      exact hconnection
    · have hold : (s.started t connection).deliveryChannels t' = s.deliveryChannels t' :=
        Process.setDeliveryChannel_of_ne _ _ heq
      rw [hold] at hchannel
      exact hlinked t' channel hchannel
  · exact Process.setTag_of_ne _ _ hne
  · exact Process.setQueue_of_ne _ _ hne

theorem startTracked_resumes (hconnection : s.activeConnection = some connection)
    (hopen : connection ∈ s.broker.connections) :
    Attains backlog reported held s (startTracked t) fun _ s' => Resumed t s s' := by
  cases hchannel : s.openDelivery t with
  | none =>
    refine (startTracked_attains hconnection hopen hchannel).mono ?_
    rintro _ _ rfl
    exact resumed_started hconnection
  | some channel =>
    obtain ⟨_, hmem⟩ := openDelivery_eq_some.1 hchannel
    have hreuse : Attains backlog reported held s (deliveryChannel t) fun channel' s' =>
        channel' = channel ∧ s' = s := attains_read hchannel (attains_pure ⟨rfl, rfl⟩)
    have hstart : Attains backlog reported held s (startConsumer t) fun tag s' =>
        s'.trackTag t tag =
          ((s.setQueue t channel).registered t channel).noteStart.trackTag t s.broker.issued := by
      refine attains_bind hreuse ?_
      rintro _ _ ⟨rfl, rfl⟩
      refine attains_bind (attains_idle rfl fun _ => ⟨0, by simp [Broker.act, hmem]⟩) ?_
      rintro _ _ rfl
      exact attains_write (attains_consume hmem rfl)
    refine attains_bind hstart ?_
    intro tag s' hs'
    refine attains_write_last ?_
    rw [hs']
    exact resumed_reuses hchannel

/-- What resuming these types leaves. -/
structure ResumedAll (types : List DataType) (s s' : Process) : Prop where
  gate : s'.gateOpen = s.gateOpen
  resume : s'.durableRefreshResumeTypes = s.durableRefreshResumeTypes
  served : ∀ t ∈ types, Served t s'

theorem resumeTypes_attains {types : List DataType} (hnodup : types.Nodup)
    (hconnection : s.activeConnection = some connection) (hopen : connection ∈ s.broker.connections)
    (hlinked : Linked s) (hready : ∀ t ∈ types, s.consumerTags t = none ∧ (s.queues t).isSome = true) :
    Attains backlog reported held s (resumeTypes types) fun _ s' =>
      ResumedAll types s s' ∧ ∀ t ∉ types, Served t s → Served t s' := by
  induction types generalizing s with
  | nil => exact attains_pure ⟨⟨rfl, rfl, fun t hmem => absurd hmem List.not_mem_nil⟩, fun _ _ h => h⟩
  | cons t types ih =>
    obtain ⟨hfresh, hrest⟩ := List.nodup_cons.1 hnodup
    obtain ⟨htag, hqueue⟩ := hready t List.mem_cons_self
    have hmissing : ((s.consumerTags t).isNone && (s.queues t).isSome) = true := by
      rw [htag, hqueue]
      rfl
    refine attains_read hmissing ?_
    refine attains_bind (startTracked_resumes hconnection hopen) ?_
    intro _ s₁ hfirst
    have hne : ∀ t' ∈ types, t' ≠ t := fun t' hmem heq => hfresh (heq ▸ hmem)
    have hready₁ : ∀ t' ∈ types, s₁.consumerTags t' = none ∧ (s₁.queues t').isSome = true := by
      intro t' hmem
      obtain ⟨htags, hqueues, _⟩ := hfirst.others t' (hne t' hmem)
      rw [htags, hqueues]
      exact hready t' (List.mem_cons_of_mem _ hmem)
    have hopen₁ : connection ∈ s₁.broker.connections := by
      rw [hfirst.connections]
      exact hopen
    refine (ih hrest (hfirst.connection.trans hconnection) hopen₁ (hfirst.linked hlinked) hready₁).mono ?_
    rintro _ s₂ ⟨hall, hothers⟩
    refine ⟨⟨hall.gate.trans hfirst.gate, hall.resume.trans hfirst.resume, ?_⟩, ?_⟩
    · intro t' hmem
      cases List.mem_cons.1 hmem with
      | inl heq => exact heq ▸ hothers t hfresh (hfirst.served hlinked)
      | inr hlater => exact hall.served t' hlater
    · intro t' hmem hserved
      have hhead : t' ≠ t := fun heq => hmem (List.mem_cons.2 (.inl heq))
      have htail : t' ∉ types := fun hin => hmem (List.mem_cons_of_mem _ hin)
      exact hothers t' htail ((hfirst.others t' hhead).2.2 hserved)

/-! ## One attempt -/

/-- Durable consumption is stopped and may be resumed. -/
structure Suspended (s : Process) : Prop where
  active : s.durableRefreshActive = true
  runs : s.shutdownRequested = false
  pool : s.connectionPool = true
  admission : s.writeAdmission = true
  closed : s.durableRefreshPaused = true ∨ s.durableRefreshReady = false

/-- The old transport serves: it is open, and every type to resume has a queue and no
    consumer. -/
structure Standing (s : Process) : Prop where
  pending : s.durableRefreshBrokerResetPending = false
  connection : ∃ connection ∈ s.broker.connections, s.activeConnection = some connection
  channel : s.activeChannel.isSome = true
  ready : ∀ t ∈ s.durableRefreshResumeTypes, s.consumerTags t = none ∧ (s.queues t).isSome = true

/-- A new transport is needed: the old one is to be reset or lacks a part, and can be
    closed; some file is not complete, or there is a backlog. -/
structure Severed (backlog : Prop) (s : Process) : Prop where
  broken : s.durableRefreshBrokerResetPending = true ∨ s.consumerCancellationFailed = false ∧
    (s.activeConnection = none ∨ s.activeChannel = none)
  closable : Closable s
  work : s.completedFiles.card < typeOrder.length ∨ backlog

/-- Delivery is open again, and these types are consumed. -/
structure Reopened (types : Finset DataType) (s : Process) : Prop where
  gate : s.gateOpen = true
  signals : s.durableRefreshRecoverySignals = []
  resume : s.durableRefreshResumeTypes = ∅
  served : ∀ t ∈ types, Served t s

theorem probe_attains : Attains backlog reported held s (wait .probeDurableSchema) fun schema s' =>
    schema = true ∧ s' = s :=
  attains_wait fun choice hchoice => ⟨choice.healthy, s, rfl, hchoice.healthy, rfl⟩

theorem database_attains {w : Wait Unit} (h : ∀ choice, perform choice s w = whenHealthy choice s ()) :
    Attains backlog reported held s (wait w) fun _ s' => s' = s := by
  refine attains_wait fun choice hchoice => ⟨(), s, ?_, rfl⟩
  simp [machine, h, whenHealthy, hchoice.healthy]

theorem replaySignals_attains (hadmission : s.writeAdmission = true)
    (signals : List (DataType × String)) :
    Attains backlog reported held s (replaySignals signals) fun _ s' => s' = s := by
  induction signals with
  | nil => exact attains_pure rfl
  | cons signal signals ih =>
    obtain ⟨t, version⟩ := signal
    refine attains_read hadmission (attains_bind (database_attains fun _ => rfl) ?_)
    rintro _ _ rfl
    exact ih

theorem replayFailedSignals_attains (hadmission : s.writeAdmission = true) :
    Attains backlog reported held s replayFailedSignals fun replayed s' => replayed = true ∧ s' = s := by
  refine attains_tryCatch (attains_bind (database_attains fun _ => rfl) ?_)
  rintro _ _ rfl
  refine attains_read rfl (attains_bind (replaySignals_attains hadmission _) ?_)
  rintro _ _ rfl
  refine attains_bind (database_attains fun _ => rfl) ?_
  rintro _ _ rfl
  exact attains_pure ⟨rfl, rfl⟩

/-- These types are consumed, and every type to resume is tracked. -/
structure Resubscribed (types : Finset DataType) (s : Process) : Prop where
  gate : s.gateOpen = true
  tracked : ∀ t ∈ s.durableRefreshResumeTypes, (s.consumerTags t).isSome = true
  served : ∀ t ∈ types, Served t s

/-- The consumers of the types are tracked, so the attempt counts as a success. -/
theorem resumeConsumers_attains {types : Finset DataType}
    (h : Attains backlog reported held s resubscribe fun _ => Resubscribed types) :
    Attains backlog reported held s resumeConsumers fun _ s' =>
      s'.gateOpen = true ∧ ∀ t ∈ types, Served t s' := by
  refine attains_bind h ?_
  rintro _ s' ⟨hgate, htracked, hserved⟩
  have hnone : (typeOrder.any fun t =>
      t ∈ s'.durableRefreshResumeTypes && (s'.consumerTags t).isNone) = false := by
    rw [List.any_eq_false]
    intro t _
    simp only [Bool.and_eq_true, decide_eq_true_eq, not_and, Option.isNone_iff_eq_none]
    intro hmem hnone
    have htag := htracked t hmem
    rw [hnone] at htag
    cases htag
  exact attains_read hnone (attains_pure ⟨hgate, hserved⟩)

theorem Served.tracked (h : Served t s) : (s.consumerTags t).isSome = true := by
  obtain ⟨tag, _, htag, _⟩ := h
  rw [htag]
  rfl

theorem resubscribe_standing (hopened : s.gateOpen = true) (h : Standing s) (hlinked : Linked s) :
    Attains backlog reported held s resubscribe fun _ => Resubscribed s.durableRefreshResumeTypes := by
  obtain ⟨connection, hopen, hconnection⟩ := h.connection
  have hattached : (s.activeConnection.isSome && s.activeChannel.isSome) = true := by
    rw [hconnection, h.channel]
    rfl
  refine attains_read hattached (attains_read rfl ?_)
  have hlisted : ∀ t, t ∈ typeOrder.filter (· ∈ s.durableRefreshResumeTypes) ↔
      t ∈ s.durableRefreshResumeTypes := by
    intro t
    rw [List.mem_filter, decide_eq_true_eq]
    exact and_iff_right (mem_typeOrder t)
  have hnodup : (typeOrder.filter (· ∈ s.durableRefreshResumeTypes)).Nodup :=
    List.Nodup.filter _ (by decide)
  refine (resumeTypes_attains hnodup hconnection hopen hlinked
    fun t hmem => h.ready t ((hlisted t).1 hmem)).mono ?_
  rintro _ s' ⟨hall, _⟩
  have hserved : ∀ t ∈ s.durableRefreshResumeTypes, Served t s' :=
    fun t hmem => hall.served t ((hlisted t).2 hmem)
  refine ⟨hall.gate.trans hopened, ?_, hserved⟩
  intro t hmem
  rw [hall.resume] at hmem
  exact (hserved t hmem).tracked

theorem resubscribe_severed (hdue : Due backlog s) (hclosable : Closable s)
    (hbroken : s.activeConnection = none ∨ s.activeChannel = none) :
    Attains backlog reported held s resubscribe fun _ => Resubscribed s.durableRefreshResumeTypes := by
  have hattached : (s.activeConnection.isSome && s.activeChannel.isSome) = false := by
    rcases hbroken with hnone | hnone
    · rw [hnone]
      rfl
    · rw [hnone]
      exact Bool.and_false _
  refine attains_read hattached ?_
  refine (recoverConsumers_attains hdue hclosable).mono ?_
  intro _ s' hserving
  exact ⟨hserving.due.1, fun t _ => (hserving.served t List.not_mem_nil).tracked,
    fun t _ => hserving.served t List.not_mem_nil⟩

theorem reopenDelivery_attains {types : Finset DataType}
    (h : Attains backlog reported held s.gateOpened resubscribe fun _ => Resubscribed types) :
    Attains backlog reported held s reopenDelivery fun reopened s' =>
      reopened = true ∧ Reopened types s' := by
  refine attains_write (attains_tryCatch (attains_bind (resumeConsumers_attains h) ?_))
  rintro _ s' ⟨hgate, hserved⟩
  exact attains_write (attains_pure ⟨rfl, hgate, rfl, rfl, hserved⟩)

theorem Suspended.of_eq (h : Suspended s) (hactive : s'.durableRefreshActive = s.durableRefreshActive)
    (hruns : s'.shutdownRequested = s.shutdownRequested) (hpool : s'.connectionPool = s.connectionPool)
    (hadmission : s'.writeAdmission = s.writeAdmission)
    (hpaused : s'.durableRefreshPaused = s.durableRefreshPaused)
    (hready : s'.durableRefreshReady = s.durableRefreshReady) : Suspended s' := by
  refine ⟨hactive.trans h.active, hruns.trans h.runs, hpool.trans h.pool,
    hadmission.trans h.admission, ?_⟩
  rw [hpaused, hready]
  exact h.closed

theorem Suspended.gateOpened (h : Suspended s) : s.gateOpened.gateOpen = true := by
  simp [Process.gateOpen, Process.gateOpened, h.active]

theorem Standing.gateOpened (h : Standing s) : Standing s.gateOpened :=
  ⟨h.pending, h.connection, h.channel, h.ready⟩

/-- The attempt once the broker is certain. -/
theorem reopen_attains (hadmission : s.writeAdmission = true) {types : Finset DataType}
    (h : Attains backlog reported held s reopenDelivery fun reopened s' =>
      reopened = true ∧ Reopened types s') :
    Attains backlog reported held s
      (do
        let schema ← wait .probeDurableSchema
        if !schema then do
          write Process.gateClosed
          pure false
        else do
          let replayed ← replayFailedSignals
          if !replayed then pure false else reopenDelivery)
      fun reopened s' => reopened = true ∧ Reopened types s' := by
  refine attains_bind probe_attains ?_
  rintro _ _ ⟨rfl, rfl⟩
  refine attains_bind (replayFailedSignals_attains hadmission) ?_
  rintro _ _ ⟨rfl, rfl⟩
  exact h

theorem attemptDurableRecovery_attains (h : Suspended s)
    (htransport : Standing s ∧ Linked s ∨ Severed backlog s) :
    Attains backlog reported held s attemptDurableRecovery fun reopened s' =>
      reopened = true ∧ Reopened s.durableRefreshResumeTypes s' := by
  have hpossible : (s.durableRefreshActive && !s.shutdownRequested && s.connectionPool) = true := by
    rw [h.active, h.runs, h.pool]
    rfl
  refine attains_read hpossible (attains_withPauseLock ?_)
  rcases htransport with ⟨hstanding, hlinked⟩ | ⟨hbroken, hclosable, hwork⟩
  · have hreset : Attains backlog reported (.pauseLock :: held) s resetIfPending fun reset s' =>
        reset = true ∧ s' = s := attains_read hstanding.pending (attains_pure ⟨rfl, rfl⟩)
    refine attains_bind hreset ?_
    rintro _ _ ⟨rfl, rfl⟩
    exact reopen_attains h.admission
      (reopenDelivery_attains (resubscribe_standing h.gateOpened hstanding.gateOpened hlinked))
  · cases hpending : s.durableRefreshBrokerResetPending with
    | true =>
      have hreset : Attains backlog reported (.pauseLock :: held) s resetIfPending fun reset s' =>
          reset = true ∧ ∃ broker, s' = (s.disconnected broker).forgetTags :=
        attains_read hpending (resetDurableBroker_attains hclosable)
      refine attains_bind hreset ?_
      rintro _ _ ⟨rfl, broker, rfl⟩
      have hcleared : Cleared backlog (s.disconnected broker).forgetTags.gateOpened :=
        ⟨⟨h.gateOpened, h.runs, rfl, hwork⟩, fun _ => rfl, fun _ => rfl⟩
      exact reopen_attains (s := (s.disconnected broker).forgetTags) h.admission
        (reopenDelivery_attains (resubscribe_severed hcleared.due hcleared.closable (.inl rfl)))
    | false =>
      have hreset : Attains backlog reported (.pauseLock :: held) s resetIfPending fun reset s' =>
          reset = true ∧ s' = s := attains_read hpending (attains_pure ⟨rfl, rfl⟩)
      refine attains_bind hreset ?_
      rintro _ _ ⟨rfl, rfl⟩
      rcases hbroken with hreset | ⟨hsure, hbroken⟩
      · rw [hpending] at hreset
        cases hreset
      · exact reopen_attains h.admission (reopenDelivery_attains
          (resubscribe_severed ⟨h.gateOpened, h.runs, hsure, hwork⟩ hclosable hbroken))

theorem recoveryRound_attains (h : Suspended s)
    (htransport : Standing s ∧ Linked s ∨ Severed backlog s) :
    Attains backlog reported held s recoveryRound fun _ => Reopened s.durableRefreshResumeTypes := by
  have hdue : (s.durableRefreshPaused || !s.durableRefreshReady) = true := by
    rcases h.closed with hpaused | hready
    · rw [hpaused]
      rfl
    · rw [hready]
      exact Bool.or_true _
  refine attains_tryCatch (attains_read hdue (attains_when (fun _ => ?_) fun hnot => by cases hnot))
  refine attains_bind (attemptDurableRecovery_attains h htransport) ?_
  rintro _ s' ⟨rfl, hreopened⟩
  exact attains_pure hreopened

end

/-! ## The pause -/

/-- The outcome of a routine that nothing cancels. -/
def Caught {α : Type} (Q : α → Process → Prop) (E : Process → Prop) : Except Failure α → Process → Prop
  | .ok a, s => Q a s
  | .error (.exception _), s => E s
  | .error .cancelled, _ => False

/-- Undisturbed, whatever the broker answers, the routine returns as `Q` says, or raises as
    `E` does. -/
abbrev Plays (held : List Region) {α : Type} (s : Process) (p : Lifecycle α) (Q : α → Process → Prop)
    (E : Process → Prop) : Prop :=
  Sound machine (undisturbed fun _ => True) none p
    (fun held' s' r => held' = held ∧ Caught Q E r s') held s

section

variable {backlog : Prop} {held : List Region} {α β : Type} {s : Process} {p : Lifecycle α}
  {Q : α → Process → Prop} {R : β → Process → Prop} {E E' : Process → Prop}

theorem plays_pure {a : α} (h : Q a s) : Plays held s (pure a) Q E := ⟨rfl, h⟩

theorem plays_raise {name : String} (h : E s) : Plays held s (.raise (.exception name)) Q E := ⟨rfl, h⟩

theorem Plays.mono {Q' : α → Process → Prop} (h : Plays held s p Q E) (hok : ∀ a s', Q a s' → Q' a s')
    (hfail : ∀ s', E s' → E' s') : Plays held s p Q' E' := by
  refine sound_mono h fun held' s' r hr => ⟨hr.1, ?_⟩
  cases r with
  | ok a => exact hok a s' hr.2
  | error e =>
    cases e with
    | exception name => exact hfail s' hr.2
    | cancelled => exact hr.2

theorem plays_bind {f : α → Lifecycle β} (hp : Plays held s p Q E')
    (hf : ∀ a s', Q a s' → Plays held s' (f a) R E) (hfail : ∀ s', E' s' → E s') :
    Plays held s (p >>= f) R E := by
  refine sound_bind (sound_mono hp ?_)
  intro held' s' r hr
  obtain ⟨rfl, hr⟩ := hr
  cases r with
  | ok a => exact hf a s' hr
  | error e =>
    cases e with
    | exception name => exact ⟨rfl, hfail s' hr⟩
    | cancelled => exact hr.elim

theorem plays_read {ρ : Type} {f : Process → ρ} {g : ρ → Lifecycle β} {a : ρ} (ha : f s = a)
    (h : Plays held s (g a) R E) : Plays held s (read f >>= g) R E := by
  subst ha
  exact sound_bind ⟨trivial, trivial, h⟩

theorem plays_write {f : Process → Process} {g : Unit → Lifecycle β} (h : Plays held (f s) (g ()) R E) :
    Plays held s (write f >>= g) R E :=
  sound_bind ⟨trivial, trivial, h⟩

theorem plays_tryExcept {body handler : Lifecycle α} (hbody : Plays held s body Q E')
    (hhandler : ∀ s', E' s' → Plays held s' handler Q E) :
    Plays held s (tryExcept body handler) Q E := by
  refine sound_tryCatch (sound_mono hbody ?_)
  intro held' s' r hr
  obtain ⟨rfl, hr⟩ := hr
  cases r with
  | ok a => exact ⟨rfl, hr⟩
  | error e =>
    cases e with
    | exception name => exact hhandler s' hr
    | cancelled => exact hr.elim

theorem plays_leaving {κ : Region} (hp : Plays (κ :: held) s p Q E) :
    Sound machine (undisturbed fun _ => True) none (p.ensuring leave)
      (fun held' s' r => held' = held ∧ Caught Q E r s') (κ :: held) s := by
  refine sound_ensuring (sound_mono hp ?_)
  intro held' s' r hr
  obtain ⟨rfl, hQ⟩ := hr
  exact ⟨trivial, rfl, hQ⟩

theorem plays_withPauseLock (hp : Plays (.pauseLock :: held) s p Q E) :
    Plays held s (withPauseLock p) Q E := by
  refine sound_bind ⟨trivial, ?_⟩
  rintro _ rfl _
  exact ⟨fun _ => plays_leaving hp, fun e he => by cases he⟩

theorem plays_wait {ρ : Type} {w : Wait ρ} {Q : ρ → Process → Prop}
    (h : ∀ choice r s', machine.perform choice s w = some (r, s') → Caught Q E r s') :
    Plays held s (wait w) Q E := by
  rintro _ rfl _
  refine ⟨fun choice reply s₂ _ hperform => ⟨trivial, trivial, ?_⟩, fun e he => by cases he⟩
  have hreply := h choice reply s₂ hperform
  cases reply with
  | ok a => exact ⟨rfl, hreply⟩
  | error e => exact ⟨rfl, hreply⟩

/-- A broker call: the broker acts or not, and its answer comes back or not. -/
theorem plays_rpc {request : Rpc} (hstarts : request.starts = false) {I : Broker → Prop}
    (hkept : I s.broker)
    (hact : ∀ count n broker, s.broker.act count request = some (n, broker) → I broker) :
    Plays held s (rpc request) (fun _ s' => ∃ broker, I broker ∧ s' = { s with broker := broker })
      fun s' => ∃ broker, I broker ∧ s' = { s with broker := broker } := by
  have hacted : Plays held s (wait (.act request))
      (fun _ s' => ∃ broker, I broker ∧ s' = { s with broker := broker }) fun _ => False := by
    refine plays_wait fun choice r s' hperform => ?_
    simp only [machine, perform] at hperform
    split at hperform
    · next a broker hsome =>
      cases hperform
      split at hsome
      · exact ⟨broker, hact _ _ _ hsome, rfl⟩
      · cases hsome
    · cases hperform
      exact ⟨s.broker, hkept, rfl⟩
  refine plays_bind hacted ?_ fun _ => False.elim
  rintro result _ ⟨broker, hbroker, rfl⟩
  have hreplied : Plays held { s with broker := broker } (wait (.reply request result))
      (fun _ s' => s' = { s with broker := broker }) fun _ => False := by
    refine plays_wait fun choice r s' hperform => ?_
    simp only [machine, perform, hstarts, Bool.false_and] at hperform
    cases hperform
    rfl
  refine plays_bind hreplied ?_ fun _ => False.elim
  rintro delivered _ rfl
  -- the call fails where the broker did not act or its answer was lost
  cases result with
  | none => exact plays_raise ⟨broker, hbroker, rfl⟩
  | some n =>
    cases delivered with
    | true => exact plays_pure ⟨broker, hbroker, rfl⟩
    | false => exact plays_raise ⟨broker, hbroker, rfl⟩

/-! ### Its taps -/

/-- What a pause leaves: the recovery loop has what it needs to resume these types. -/
structure Paused (backlog : Prop) (types : Finset DataType) (s : Process) : Prop where
  suspended : Suspended s
  transport : Standing s ∧ Linked s ∨ Severed backlog s
  resume : s.durableRefreshResumeTypes = types

/-- Within the pause: the taps of these items are still open. -/
structure Pausing (backlog : Prop) (types : Finset DataType) (items : List (DataType × Tag))
    (s : Process) : Prop where
  suspended : Suspended s
  pending : s.durableRefreshBrokerResetPending = false
  connection : ∃ connection ∈ s.broker.connections, s.activeConnection = some connection
  channel : s.activeChannel.isSome = true
  linked : Linked s
  work : s.completedFiles.card < typeOrder.length ∨ backlog
  resume : s.durableRefreshResumeTypes = types
  ready : ∀ t ∈ types, t ∈ items.map Prod.fst ∨ s.consumerTags t = none ∧ (s.queues t).isSome = true

variable {types : Finset DataType} {items : List (DataType × Tag)} {t : DataType} {tag : Tag}

theorem Pausing.paused (h : Pausing backlog types [] s) : Paused backlog types s := by
  refine ⟨h.suspended, .inl ⟨⟨h.pending, h.connection, h.channel, fun t hmem => ?_⟩, h.linked⟩, h.resume⟩
  rw [h.resume] at hmem
  exact (h.ready t hmem).resolve_left List.not_mem_nil

/-- A tap closed for certain. -/
theorem Pausing.untracked (h : Pausing backlog types ((t, tag) :: items) s)
    (hqueue : (s.queues t).isSome = true) : Pausing backlog types items (s.untrackTag t) := by
  refine ⟨h.suspended.of_eq rfl rfl rfl rfl rfl rfl, h.pending, h.connection, h.channel, h.linked,
    h.work, h.resume, ?_⟩
  intro t' hmem
  by_cases heq : t' = t
  · subst heq
    exact .inr ⟨Process.setTag_self _ _, hqueue⟩
  · refine (h.ready t' hmem).imp ?_ ?_
    · intro hitem
      rw [List.map_cons, List.mem_cons] at hitem
      exact hitem.resolve_left heq
    · rintro ⟨htag, hqueue'⟩
      exact ⟨(Process.setTag_of_ne _ _ heq).trans htag, hqueue'⟩

theorem cancelTap_plays (h : Pausing backlog types items s) :
    Plays held s (cancelTap t tag) (fun cancelled s' => Pausing backlog types items s' ∧
      (cancelled = true → (s'.queues t).isSome = true)) fun _ => False := by
  cases hqueue : s.queues t with
  | none => exact plays_read hqueue (plays_pure ⟨h, fun hfalse => by cases hfalse⟩)
  | some queue =>
    have hcall : Plays held s (rpc (.cancel queue tag))
        (fun _ s' => Pausing backlog types items s' ∧ s'.queues = s.queues)
        (Pausing backlog types items) := by
      have hkept : ∀ s', (∃ broker : Broker, broker.connections = s.broker.connections ∧
          s' = { s with broker := broker }) → Pausing backlog types items s' ∧ s'.queues = s.queues := by
        rintro _ ⟨broker, hconnections, rfl⟩
        obtain ⟨connection, hopen, hconnection⟩ := h.connection
        exact ⟨⟨h.suspended.of_eq rfl rfl rfl rfl rfl rfl, h.pending,
          ⟨connection, hconnections ▸ hopen, hconnection⟩, h.channel, h.linked, h.work, h.resume,
          h.ready⟩, rfl⟩
      refine (plays_rpc (I := fun broker => broker.connections = s.broker.connections) rfl rfl ?_).mono
        (fun _ => hkept) fun s' hs' => (hkept s' hs').1
      intro count n broker hact
      simp only [Broker.act] at hact
      split at hact <;> cases hact
      rfl
    refine plays_read hqueue (plays_tryExcept (plays_bind hcall ?_ fun _ => id) ?_)
    · rintro _ s' ⟨hpausing, hqueues⟩
      refine plays_pure ⟨hpausing, fun _ => ?_⟩
      rw [hqueues, hqueue]
      rfl
    · exact fun s' hpausing => plays_pure ⟨hpausing, fun hfalse => by cases hfalse⟩

/-! ### Its reset -/

/-- The process with nothing but its broker changed. -/
abbrev Process.At (s s' : Process) : Prop := ∃ broker, s' = { s with broker := broker }

theorem close_plays {request : Rpc} (hstarts : request.starts = false) :
    Plays held s (rpc request) (fun _ => s.At) s.At := by
  have hat : ∀ s', (∃ broker : Broker, True ∧ s' = { s with broker := broker }) → s.At s' := by
    rintro s' ⟨broker, _, hs'⟩
    exact ⟨broker, hs'⟩
  exact (plays_rpc (I := fun _ => True) hstarts trivial fun _ _ _ _ => trivial).mono (fun _ => hat) hat

theorem closeEach_plays (channels : List Channel) :
    Plays held s (closeEach channels) (fun _ => s.At) s.At := by
  induction channels generalizing s with
  | nil => exact plays_pure ⟨s.broker, rfl⟩
  | cons channel channels ih =>
    refine plays_bind (close_plays rfl) ?_ fun _ => id
    rintro _ _ ⟨broker, rfl⟩
    exact ih

/-- The transport as an attempt to close it leaves it: without its channels at least, or as
    it was. -/
def Process.Loosened (s : Process) (closed : Bool) (s' : Process) : Prop :=
  if closed then ∃ broker, s' = s.disconnected broker ∨ s' = { s.dropChannels with broker := broker }
  else s.At s'

theorem closeChannels_plays (channels : List Channel) :
    Plays held s (closeChannels channels) s.Loosened s.At := by
  refine plays_bind (closeEach_plays channels) ?_ fun _ => id
  rintro _ _ ⟨broker, rfl⟩
  exact plays_write (plays_pure ⟨broker, .inr rfl⟩)

theorem closeTransport_plays {connection : Connection} {channels : List Channel}
    (hsome : channels ≠ []) :
    Plays held s (closeTransport (some connection) channels) s.Loosened fun _ => False := by
  have hfirst : Plays held s (closeConnectionOrChannels channels (some connection)) s.Loosened s.At := by
    refine plays_bind (close_plays rfl) ?_ fun _ => id
    rintro _ _ ⟨broker, rfl⟩
    exact plays_write (plays_pure ⟨broker, .inl rfl⟩)
  refine plays_tryExcept hfirst ?_
  rintro _ ⟨broker, rfl⟩
  rw [if_neg (by simpa using hsome)]
  have hrest : Plays held { s with broker := broker } (closeChannels channels) s.Loosened s.At :=
    (closeChannels_plays channels).mono (fun _ _ h => h) fun _ h => h
  exact plays_tryExcept hrest fun s' hat => plays_pure hat

/-- Whatever the reset comes to, there is a transport to close or nothing is tracked. -/
theorem resetUncertain_plays (h : Pausing backlog types items s) :
    Plays held s resetUncertain (fun _ => Paused backlog types) fun _ => False := by
  obtain ⟨connection, _, hconnection⟩ := h.connection
  obtain ⟨channel, hchannel⟩ := Option.isSome_iff_exists.1 h.channel
  have hheld : s.heldChannels ≠ [] := by
    simp [Process.heldChannels, hchannel]
  have hreset : Plays held { s with durableRefreshBrokerResetPending := true } resetDurableBroker
      (fun _ => Paused backlog types) fun _ => False := by
    refine plays_read (a := some connection) hconnection (plays_read rfl (plays_read rfl ?_))
    refine plays_bind (closeTransport_plays (by exact hheld)) ?_ fun _ => id
    intro closed s' hclosed
    cases closed with
    | false =>
      obtain ⟨broker, rfl⟩ := hclosed
      refine plays_pure ⟨h.suspended.of_eq rfl rfl rfl rfl rfl rfl,
        .inr ⟨.inl rfl, fun _ => .inl ?_, h.work⟩, h.resume⟩
      show s.activeConnection.isSome = true
      rw [hconnection]
      rfl
    | true =>
      obtain ⟨broker, hs'⟩ := hclosed
      have hbare : Closable s'.forgetTags := fun htagged => by
        simp [Process.tagged, Process.forgetTags] at htagged
      refine plays_write (plays_pure ?_)
      rcases hs' with rfl | rfl
      · exact ⟨h.suspended.of_eq rfl rfl rfl rfl rfl rfl,
          .inr ⟨.inr ⟨rfl, .inr rfl⟩, hbare, h.work⟩, h.resume⟩
      · exact ⟨h.suspended.of_eq rfl rfl rfl rfl rfl rfl,
          .inr ⟨.inr ⟨rfl, .inr rfl⟩, hbare, h.work⟩, h.resume⟩
  exact plays_write (plays_bind hreset (fun _ s' hs' => plays_pure hs') fun _ => id)

theorem cancelEach_plays (h : Pausing backlog types items s) :
    Plays held s (cancelEach items) (fun _ => Paused backlog types) fun _ => False := by
  induction items generalizing s with
  | nil =>
    refine plays_write (plays_pure ?_)
    have hpausing : Pausing backlog types [] { s with pauseReturned := true } :=
      ⟨h.suspended.of_eq rfl rfl rfl rfl rfl rfl, h.pending, h.connection, h.channel, h.linked, h.work,
        h.resume, h.ready⟩
    exact hpausing.paused
  | cons item items ih =>
    obtain ⟨t, tag⟩ := item
    refine plays_bind (cancelTap_plays h) ?_ fun _ => id
    rintro cancelled s' ⟨hpausing, hqueue⟩
    cases cancelled with
    | false =>
      exact plays_bind (resetUncertain_plays hpausing) (fun _ s'' hs'' => plays_pure hs'') fun _ => id
    | true => exact plays_write (ih (hpausing.untracked (hqueue rfl)))

/-! ### Its beginning -/

/-- Delivery is on: connected in durable mode, with a pool, no reset owed, and work left. -/
structure Delivering (backlog : Prop) (s : Process) : Prop where
  active : s.durableRefreshActive = true
  runs : s.shutdownRequested = false
  pool : s.connectionPool = true
  admission : s.writeAdmission = true
  pending : s.durableRefreshBrokerResetPending = false
  connection : ∃ connection ∈ s.broker.connections, s.activeConnection = some connection
  channel : s.activeChannel.isSome = true
  queued : ∀ t ∈ s.durableRefreshResumeTypes, (s.queues t).isSome = true
  work : s.completedFiles.card < typeOrder.length ∨ backlog

/-- The types with a consumer, and those an earlier pause has left to resume. -/
def Process.consumed (s : Process) : Finset DataType :=
  s.durableRefreshResumeTypes ∪ (s.tagItems.map Prod.fst).toFinset

theorem mem_consumed : t ∈ s.consumed ↔
    t ∈ s.durableRefreshResumeTypes ∨ (s.consumerTags t).isSome = true := by
  rw [Process.consumed, Finset.mem_union, List.mem_toFinset]
  refine or_congr Iff.rfl ?_
  simp only [Process.tagItems, List.mem_map, List.mem_filterMap, Option.map_eq_some_iff]
  constructor
  · rintro ⟨_, ⟨t', _, tag, htag, rfl⟩, rfl⟩
    exact Option.isSome_of_eq_some htag
  · intro hsome
    obtain ⟨tag, htag⟩ := Option.isSome_iff_exists.1 hsome
    exact ⟨(t, tag), ⟨t, mem_typeOrder t, tag, htag, rfl⟩, rfl⟩

theorem pauseDurableConsumers_plays {version : String} (h : Delivering backlog s)
    (hlinked : Linked s) : Plays held s (pauseDurableConsumers t version)
      (fun _ => Paused backlog s.consumed) fun _ => False := by
  refine plays_withPauseLock (plays_write ?_)
  refine sound_bind ⟨fun _ => ⟨trivial, fun _ => ?_⟩, fun hfalse => by cases hfalse⟩
  refine plays_leaving (plays_read rfl (cancelEach_plays ?_))
  refine ⟨⟨h.active, h.runs, h.pool, h.admission, .inl rfl⟩, h.pending, h.connection, h.channel, hlinked,
    h.work, rfl, fun t' hmem => ?_⟩
  cases htag : s.consumerTags t' with
  | some tag =>
    have hitem : (t', tag) ∈ s.tagItems := List.mem_filterMap.2 ⟨t', mem_typeOrder t', by rw [htag]; rfl⟩
    exact .inl (List.mem_map.2 ⟨(t', tag), hitem, rfl⟩)
  | none =>
    refine .inr ⟨htag, ?_⟩
    rcases mem_consumed.1 hmem with hresume | hsome
    · exact h.queued t' hresume
    · rw [htag] at hsome
      cases hsome

end

/-! ## Runs -/

section

variable {backlog : Prop} {l₀ l l₁ : Loader}

/-- Between tasks every live consumer is traced, and the delivery channels lie on the connection. -/
theorem tracked_of_quiescent (hstart : Subscribed l₀)
    (hrun : EventLoop.Run machine (EventLoop.Admits machine Alone Confirmed) l₀ l)
    (hquiet : l.Quiescent) : Tracked l.shared := by
  have hkept := EventLoop.run_kept orderlyDiscipline_lawful job_orderly hstart.kept hrun
  refine hkept.world.tracked fun i => ?_
  cases htask : l.tasks[i]? with
  | none => simp [EventLoop.sections, htask]
  | some task =>
    rw [EventLoop.sections_of_get htask]
    exact (hquiet task (List.mem_of_getElem? htask)).2

/-- One round of the recovery loop, with obliging answers. -/
theorem reopened_of_suspended (hlinked : Linked l.shared) (hquiet : l.Quiescent)
    (hsuspended : Suspended l.shared) (htransport : Standing l.shared ∨ Severed backlog l.shared)
    {answers : Nat → Choice} (hanswers : ∀ i, Obliging backlog (fun _ => True) (answers i)) :
    ∃ n l', runWhile (EventLoop.step machine) (EventLoop.Admits machine Alone Confirmed) l
        (.start .recoveryRound :: EventLoop.answering l.tasks.length answers n) = some l' ∧
      l'.Quiescent ∧ Reopened l.shared.durableRefreshResumeTypes l'.shared :=
  round_finishes .recoveryRound hquiet
    (recoveryRound_attains hsuspended (htransport.imp_left fun h => ⟨h, hlinked⟩)) hanswers

/-- Whatever the loader has been through, once no task is under way and durable consumption is
    stopped, on a transport that stands or is to be replaced with work to do, one round of the
    recovery loop that the database and the broker answer opens delivery again, with a consumer for
    each type it had to resume and no second one for any. -/
theorem recovery_reopens_delivery (hstart : Subscribed l₀)
    (hrun : EventLoop.Run machine (EventLoop.Admits machine Alone Confirmed) l₀ l)
    (hquiet : l.Quiescent) (hsuspended : Suspended l.shared)
    (htransport : Standing l.shared ∨ Severed backlog l.shared) (answers : Nat → Choice)
    (hanswers : ∀ i, Obliging backlog (fun _ => True) (answers i)) :
    ∃ n l', runWhile (EventLoop.step machine) (EventLoop.Admits machine Alone Confirmed) l
        (.start .recoveryRound :: EventLoop.answering l.tasks.length answers n) = some l' ∧
      l'.Quiescent ∧ Reopened l.shared.durableRefreshResumeTypes l'.shared ∧ (liveTypes l').Nodup := by
  have hlinked : Linked l.shared := (tracked_of_quiescent hstart hrun hquiet).linked
  obtain ⟨n, l', heval, hquiet', hreopened⟩ :=
    reopened_of_suspended hlinked hquiet hsuspended htransport hanswers
  refine ⟨n, l', heval, hquiet', hreopened, ?_⟩
  exact nodup_liveTypes hstart (hrun.trans (runOf_of_runWhile _ _ heval))

/-- A failed handoff costs no consumer while there is work to do.  Whatever the broker answers while
    the pause cancels its taps, or resets what it could not cancel, the round of the recovery loop
    that finds database and broker back resumes every type that was consumed when the pause began. -/
theorem outage_costs_no_consumer (hstart : Subscribed l₀)
    (hrun : EventLoop.Run machine (EventLoop.Admits machine Alone Confirmed) l₀ l)
    (hquiet : l.Quiescent) (h : Delivering backlog l.shared) (t : DataType) (version : String)
    (pauseAnswers : Nat → Choice) (n : Nat)
    (hpause : runWhile (EventLoop.step machine) (EventLoop.Admits machine Alone Confirmed) l
      (.start (.pause t version) :: EventLoop.answering l.tasks.length pauseAnswers n) = some l₁)
    (hquiet₁ : l₁.Quiescent) (answers : Nat → Choice)
    (hanswers : ∀ i, Obliging backlog (fun _ => True) (answers i)) :
    ∃ m l₂, runWhile (EventLoop.step machine) (EventLoop.Admits machine Alone Confirmed) l₁
        (.start .recoveryRound :: EventLoop.answering l₁.tasks.length answers m) = some l₂ ∧
      l₂.Quiescent ∧ Reopened l.shared.consumed l₂.shared ∧ (liveTypes l₂).Nodup := by
  have hlinked : Linked l.shared := (tracked_of_quiescent hstart hrun hquiet).linked
  have hsound : Sound machine (undisturbed fun _ => True) none (machine.program (.pause t version))
      (fun _ s _ => Paused backlog l.shared.consumed s) [] l.shared := by
    refine sound_mono (plays_bind (pauseDurableConsumers_plays h hlinked)
      (fun _ s' hs' => plays_pure (Q := fun _ => Paused backlog l.shared.consumed) hs') fun _ => id) ?_
    intro held s r hr
    cases r with
    | ok a => exact hr.2
    | error e => cases e <;> exact hr.2.elim
  have hpaused : Paused backlog l.shared.consumed l₁.shared :=
    EventLoop.job_ends hquiet hsound (fun _ => trivial) hpause hquiet₁
  have hrun₁ := hrun.trans (runOf_of_runWhile _ _ hpause)
  obtain ⟨m, l₂, heval, hquiet₂, hreopened⟩ :=
    reopened_of_suspended (tracked_of_quiescent hstart hrun₁ hquiet₁).linked hquiet₁
      hpaused.suspended (hpaused.transport.imp_left And.left) hanswers
  rw [hpaused.resume] at hreopened
  refine ⟨m, l₂, heval, hquiet₂, hreopened, ?_⟩
  exact nodup_liveTypes hstart (hrun₁.trans (runOf_of_runWhile _ _ heval))

end

/-- The labels' tap was closed, and their channel is still open. -/
def hushed : Process :=
  { attached with
    consumerTags := fun _ => none
    durableRefreshPaused := true
    durableRefreshReady := false
    durableRefreshResumeTypes := {.labels}
    durableRefreshRecoverySignals := [(.labels, "20240101")]
    broker := ⟨[0], [⟨0, 1⟩, ⟨0, 2⟩], [], 4⟩
    consumersActive := 0 }

theorem recovery_reopens_delivery_labels :
    ∃ n l', runWhile (EventLoop.step machine) (EventLoop.Admits machine Alone Confirmed)
        (⟨hushed, []⟩ : Loader)
        (.start .recoveryRound :: EventLoop.answering 0 (fun _ => obligingly) n) = some l' ∧
      l'.Quiescent ∧ Reopened {.labels} l'.shared ∧ (liveTypes l').Nodup := by
  have htags : ∀ t tag, hushed.consumerTags t = some tag → tag < hushed.broker.issued :=
    fun t tag ht => by cases ht
  have hlinked : Linked hushed := by
    intro t channel ht
    cases t with
    | labels => cases ht; rfl
    | _ => cases ht
  have hstart : Subscribed ⟨hushed, []⟩ := ⟨rfl, tracked_of_none rfl htags hlinked⟩
  have hstanding : Standing hushed := by
    refine ⟨rfl, ⟨0, List.mem_cons_self, rfl⟩, rfl, fun t hmem => ?_⟩
    exact ⟨rfl, rfl⟩
  have hanswers : ∀ _ : Nat, Obliging False (fun _ => True) obligingly :=
    fun _ => ⟨rfl, rfl, rfl, rfl, rfl, trivial, False.elim⟩
  exact recovery_reopens_delivery hstart .refl (fun task hmem => by cases hmem)
    ⟨rfl, rfl, rfl, rfl, .inl rfl⟩ (.inl hstanding) (fun _ => obligingly) hanswers

/-- The broker neither acts nor answers. -/
def silently : Choice := { smoothly with acted := false, delivered := false }

theorem outage_costs_no_consumer_labels :
    ∃ l₁ : Loader, l₁.shared.durableRefreshBrokerResetPending = true ∧
      ∃ m l₂, runWhile (EventLoop.step machine) (EventLoop.Admits machine Alone Confirmed) l₁
          (.start .recoveryRound :: EventLoop.answering l₁.tasks.length (fun _ => obligingly) m) = some l₂ ∧
        l₂.Quiescent ∧ Reopened attached.consumed l₂.shared ∧ (liveTypes l₂).Nodup := by
  have heval : ((runWhile (EventLoop.step machine) (EventLoop.Admits machine Alone Confirmed)
      (⟨attached, []⟩ : Loader)
      (.start (.pause .labels "20240101") :: EventLoop.answering 0 (fun _ => silently) 7)).map fun l =>
        (l.shared.durableRefreshBrokerResetPending, decide l.Quiescent)) = some (true, true) := by
    decide +kernel
  obtain ⟨l₁, hpause, hleft⟩ := Option.map_eq_some_iff.1 heval
  obtain ⟨hpending, hquiet₁⟩ := Prod.mk.inj hleft
  have hdelivering : Delivering False attached :=
    ⟨rfl, rfl, rfl, rfl, rfl, ⟨0, List.mem_cons_self, rfl⟩, rfl, fun t hmem => rfl, .inl (by decide)⟩
  exact ⟨l₁, hpending, outage_costs_no_consumer attached_subscribed .refl (fun task hmem => by cases hmem)
    hdelivering .labels "20240101" (fun _ => silently) 7 hpause (of_decide_eq_true hquiet₁)
    (fun _ => obligingly) fun _ => ⟨rfl, rfl, rfl, rfl, rfl, trivial, fun hfalse => hfalse.elim⟩⟩

end Tableinator.Consumers
