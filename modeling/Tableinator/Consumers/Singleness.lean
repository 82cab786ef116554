import Tableinator.Consumers.Pause
import Tableinator.Consumers.Subscriptions

/-! # One subscription each

Each routine under the discipline of the subscriptions: what it finds, what it asserts
over its waits and how it leaves the tags and the channels.  Closing comes first, since
every replacement closes before it starts; then the starts, the recovery functions, the
pause and the timers, and the runs of all of them together. -/

namespace Tableinator.Consumers

open Effect Effect.Program Effect.Routine

section

variable {stop : Option Failure} {held : List Region} {α : Type} {P : Process → Prop}

/-! ## Closing -/

theorem tracked_stable (hheld : held ≠ []) : Stable held Tracked :=
  .of_mild hheld (fun _ h => h.orderly) fun _ _ h => h.mild

/-- With no live subscription only the tags and the connection matter. -/
theorem tracked_of_none {s : Process} (hnone : s.broker.subscriptions = [])
    (htags : ∀ t tag, s.consumerTags t = some tag → tag < s.broker.issued) (hlinked : Linked s) :
    Tracked s := by
  have hall : ∀ {p : Subscription → Prop}, ∀ a ∈ s.broker.subscriptions, p a := by simp [hnone]
  exact ⟨⟨by simp [hnone], hall, hall, hall, htags, hall, hall⟩, hall, hlinked⟩

/-- What a close found open. -/
structure Facing (connection : Option Connection) (channels : List Channel) (s : Process) : Prop where
  tracked : Tracked s
  connection : s.activeConnection = connection
  channels : Free (fun a => a.channel ∉ channels) s

/-- Nothing is live any more. -/
def Emptied (s : Process) : Prop := Tracked s ∧ s.broker.subscriptions = []

/-- The outcome of a close: all is empty if it was complete. -/
def Closes (Q : Process → Prop) (r : Except Failure Bool) (s : Process) : Prop :=
  Tracked s ∧ (r = .ok true → Q s)

theorem closes_false {Q : Process → Prop} {s : Process} (h : Tracked s) : Closes Q (.ok false) s :=
  ⟨h, fun heq => by cases heq⟩

theorem closes_error {Q : Process → Prop} {s : Process} {e : Failure} (h : Tracked s) :
    Closes Q (.error e) s :=
  ⟨h, fun heq => by cases heq⟩

theorem facing_stable (hheld : held ≠ []) (connection : Option Connection) (channels : List Channel) :
    Stable held (Facing connection channels) := by
  refine .of_mild hheld (fun s hs => hs.tracked.orderly) fun s s' hs hmild => ?_
  exact ⟨hs.tracked.mild hmild, hmild.activeConnection.trans hs.connection, hs.channels.mild hmild⟩

/-- A complete close of the connection leaves nothing live. -/
theorem Facing.none_of_connection {connection : Connection} {channels : List Channel} {s : Process}
    (h : Facing (some connection) channels s)
    (hfree : Free (fun a => a.channel.connection = connection) s) :
    s.broker.subscriptions = [] := by
  rw [List.eq_nil_iff_forall_not_mem]
  intro a ha
  have hconnection := h.tracked.connection ha
  rw [h.connection] at hconnection
  exact hfree a ha (Option.some.inj hconnection).symm

theorem Facing.none_of_channels {connection : Option Connection} {channels : List Channel}
    {s : Process} (h : Facing connection channels s) (hfree : Free (fun a => a.channel ∈ channels) s) :
    s.broker.subscriptions = [] := by
  rw [List.eq_nil_iff_forall_not_mem]
  intro a ha
  exact h.channels a ha (hfree a ha)

theorem Facing.none_of_disconnected {channels : List Channel} {s : Process}
    (h : Facing none channels s) : s.broker.subscriptions = [] := by
  rw [List.eq_nil_iff_forall_not_mem]
  intro a ha
  have hconnection := h.tracked.connection ha
  rw [h.connection] at hconnection
  cases hconnection

theorem closeEach_closes (hheld : held ≠ []) (hP : Stable held P) (channels : List Channel) :
    Triple machine orderlyDiscipline stop held P (closeEach channels)
      (Returns (fun _ s => P s ∧ Free (fun a => a.channel ∈ channels) s) P) := by
  induction channels generalizing P with
  | nil => exact triple_pure fun s hs => ⟨hs, fun a _ hmem => by cases hmem⟩
  | cons channel channels ih =>
    have hone := hP.free hheld fun a => a.channel = channel
    refine triple_bind (triple_rpc rfl hP hone fun s hs hfree => ⟨hs, hfree⟩) (fun _ => ?_) fun _ _ hs => hs
    refine (ih hone).mono (fun _ hs => hs) fun r s hs => ?_
    cases r with
    | error e => exact hs.1
    | ok a =>
      obtain ⟨⟨hs, hone⟩, hrest⟩ := hs
      refine ⟨hs, fun a ha hmem => ?_⟩
      cases List.mem_cons.1 hmem with
      | inl heq => exact hone a ha heq
      | inr hmem => exact hrest a ha hmem

/-- Dropping the channels once nothing is live. -/
theorem emptied_of_dropped {s s' : Process} (h : Emptied s) (hbroker : s'.broker = s.broker)
    (htags : ∀ t, s'.consumerTags t = s.consumerTags t ∨ s'.consumerTags t = none)
    (hlinked : Linked s') : Emptied s' := by
  have hnone : s'.broker.subscriptions = [] := by rw [hbroker, h.2]
  refine ⟨tracked_of_none hnone (fun t tag ht => ?_) hlinked, hnone⟩
  rw [hbroker]
  cases htags t with
  | inl heq => exact h.1.orderly.tags t tag (heq ▸ ht)
  | inr hnil =>
    rw [hnil] at ht
    cases ht

theorem linked_of_none {s : Process} (h : ∀ t, s.deliveryChannels t = none) : Linked s := by
  intro t channel ht
  rw [h t] at ht
  cases ht

theorem emptied_write {f : Process → Process} {g : Unit → Lifecycle α} {Q : Except Failure α → Process → Prop}
    (hheld : held ≠ []) (hf : ∀ s, Emptied s → Emptied (f s)) (hbroker : ∀ s, (f s).broker = s.broker)
    (hg : Triple machine orderlyDiscipline stop held Emptied (g ()) Q) :
    Triple machine orderlyDiscipline stop held Emptied (write f >>= g) Q :=
  triple_write_bind (fun s hs => ⟨(hf s hs).1.orderly, guar_of_broker hheld (hbroker s), hf s hs⟩) hg

theorem closeChannels_closes (hheld : held ≠ []) (connection : Option Connection)
    (channels : List Channel) :
    Triple machine orderlyDiscipline stop held (Facing connection channels) (closeChannels channels)
      (Returns (fun _ => Emptied) (Facing connection channels)) := by
  refine triple_bind (closeEach_closes hheld (facing_stable hheld _ _) channels) ?_ fun _ _ hs => hs
  intro _
  have hdrop : Triple machine orderlyDiscipline stop held Emptied
      (write Process.dropChannels >>= fun _ => pure true)
      (Returns (fun _ => Emptied) (Facing connection channels)) := by
    refine emptied_write hheld ?_ (fun _ => rfl) (triple_pure fun s hs => hs)
    exact fun s hs => emptied_of_dropped hs rfl (fun _ => .inl rfl) (linked_of_none fun _ => rfl)
  exact hdrop.mono (fun s hs => ⟨hs.1.tracked, hs.1.none_of_channels hs.2⟩) fun _ _ hs => hs

theorem closeConnectionOrChannels_closes (hheld : held ≠ []) (connection : Option Connection)
    (channels : List Channel) :
    Triple machine orderlyDiscipline stop held (Facing connection channels)
      (closeConnectionOrChannels channels connection)
      (Returns (fun _ => Emptied) (Facing connection channels)) := by
  cases connection with
  | none => exact closeChannels_closes hheld none channels
  | some connection =>
    have hfacing := facing_stable hheld (some connection) channels
    have hended := hfacing.free hheld fun a => a.channel.connection = connection
    refine triple_bind (triple_rpc rfl hfacing hended fun s hs hfree => ⟨hs, hfree⟩) ?_ fun _ _ hs => hs
    intro _
    have hdrop : Triple machine orderlyDiscipline stop held Emptied
        (write (fun s => { s.dropChannels with activeConnection := none }) >>= fun _ => pure true)
        (Returns (fun _ => Emptied) (Facing (some connection) channels)) := by
      refine emptied_write hheld ?_ (fun _ => rfl) (triple_pure fun s hs => hs)
      exact fun s hs => emptied_of_dropped hs rfl (fun _ => .inl rfl) (linked_of_none fun _ => rfl)
    exact hdrop.mono (fun s hs => ⟨hs.1.tracked, hs.1.none_of_connection hs.2⟩) fun _ _ hs => hs

theorem closeTransport_closes (hheld : held ≠ []) (connection : Option Connection)
    (channels : List Channel) :
    Triple machine orderlyDiscipline stop held (Facing connection channels)
      (closeTransport connection channels) (Closes Emptied) := by
  have hempty : ∀ {b : Bool} s, Emptied s → Closes Emptied (.ok b) s := fun s hs => ⟨hs.1, fun _ => hs⟩
  refine triple_tryExcept (closeConnectionOrChannels_closes hheld connection channels)
    (fun _ => hempty) (fun _ => ?_) fun s hs => closes_error hs.tracked
  split
  · exact triple_pure fun s hs => closes_false hs.tracked
  · exact triple_tryExcept (closeChannels_closes hheld connection channels) (fun _ => hempty)
      (fun _ => triple_pure fun s hs => closes_false hs.tracked) fun s hs => closes_error hs.tracked

/-- A task that looked up what is open can close all that is live. -/
theorem Tracked.facing {s : Process} (h : Tracked s) : Facing s.activeConnection s.heldChannels s :=
  ⟨h, rfl, fun _ ha hnot => hnot (h.mem_heldChannels ha)⟩

theorem resetDurableBroker_upholds (hheld : held ≠ []) :
    Upholds stop held Tracked resetDurableBroker := by
  refine triple_read (fun s hs => hs.orderly) fun connection => ?_
  refine triple_read (fun s hs => hs.1.orderly) fun channels => ?_
  refine triple_read (fun s hs => hs.1.1.orderly) fun tagged => ?_
  have hfacing : ∀ s, ((Tracked s ∧ s.activeConnection = connection) ∧ s.heldChannels = channels) ∧
      s.tagged = tagged → Facing connection channels s := by
    rintro s ⟨⟨⟨hs, rfl⟩, rfl⟩, _⟩
    exact hs.facing
  split
  · exact triple_pure fun s hs => hs.1.1.1
  · refine triple_bind ((closeTransport_closes hheld connection channels).mono hfacing fun _ _ hs => hs) ?_
      fun _ _ hs => hs.1
    intro closed
    cases closed with
    | false => exact triple_pure fun s hs => hs.1
    | true =>
      have hforget : Upholds stop held Emptied (write Process.forgetTags >>= fun _ => pure true) := by
        refine emptied_write hheld ?_ (fun _ => rfl) (upholds_pure true)
        exact fun s hs => emptied_of_dropped hs rfl (fun _ => .inr rfl) hs.1.linked
      exact hforget.mono (fun s hs => hs.2 rfl) fun _ _ hs => hs.1

theorem cancellationFailed_ending : Ending cancellationFailed :=
  only_write fun _ => .of_eq rfl rfl rfl rfl rfl rfl

theorem closeEachQuietly_ending (channels : List Channel) : Ending (closeEachQuietly channels) := by
  induction channels with
  | nil => trivial
  | cons channel channels ih =>
    exact only_bind (confirmed_ending rfl) fun _ => only_bind ih fun _ => trivial

theorem closeRecoveryTransport_closes (hheld : held ≠ []) (connection : Option Connection)
    (channels : List Channel) :
    Triple machine orderlyDiscipline stop held (Facing connection channels)
      (closeRecoveryTransport connection channels) (Closes Emptied) := by
  have hfacing := facing_stable hheld connection channels
  have hfailed : Upholds stop held (Facing connection channels) cancellationFailed :=
    cancellationFailed_ending.upholds hfacing
  have hclose : ∀ channelClosed, Triple machine orderlyDiscipline stop held
      (Facing connection channels) (closeRecoveryConnection channelClosed connection)
      (Returns (fun closed s => Facing connection channels s ∧
        (closed = true → s.broker.subscriptions = [])) (Facing connection channels)) := by
    intro channelClosed
    cases connection with
    | some connection =>
      have hended := hfacing.free hheld fun a => a.channel.connection = connection
      refine triple_bind (triple_rpc rfl hfacing hended fun s hs hfree => ⟨hs, hfree⟩) ?_ fun _ _ hs => hs
      exact fun _ => triple_pure fun s hs => ⟨hs.1, fun _ => hs.1.none_of_connection hs.2⟩
    | none =>
      cases channelClosed with
      | true => exact triple_pure fun s hs => ⟨hs, fun _ => hs.none_of_disconnected⟩
      | false =>
        refine triple_bind hfailed ?_ fun _ _ hs => hs
        exact fun _ => triple_pure fun s hs => ⟨hs, fun h => by cases h⟩
  have hbody := triple_bind ((closeEachQuietly_ending channels).upholds hfacing) hclose fun _ _ hs => hs
  refine triple_tryCatch hbody ?_ fun e => ?_
  · exact fun closed s hs => ⟨hs.1.tracked, fun h => ⟨hs.1.tracked, hs.2 (by cases h; rfl)⟩⟩
  · have hdone : ∀ s, Facing connection channels s → Closes Emptied (.error .cancelled) s :=
      fun s hs => closes_error hs.tracked
    cases e with
    | cancelled => exact triple_bind hfailed (fun _ => triple_raise hdone) fun _ s hs => closes_error hs.tracked
    | exception name =>
      refine triple_bind hfailed (fun _ => triple_pure fun s hs => ?_) fun _ s hs => ?_
      · exact closes_false hs.tracked
      · exact closes_error hs.tracked

/-- Nothing is live, and no delivery channel is left. -/
structure Bare (s : Process) : Prop where
  emptied : Emptied s
  channels : ∀ t, s.deliveryChannels t = none

theorem bare_stable (hheld : held ≠ []) : Stable held Bare := by
  refine .of_mild hheld (fun s hs => hs.emptied.1.orderly) fun s s' hs hmild => ?_
  refine ⟨⟨hs.emptied.1.mild hmild, ?_⟩, fun t => ?_⟩
  · have hnone := hmild.subscriptions
    rw [hs.emptied.2] at hnone
    exact List.sublist_nil.1 hnone
  · rw [hmild.deliveryChannels, hs.channels t]

theorem Bare.of_broker {s s' : Process} (h : Bare s) (hbroker : s'.broker = s.broker)
    (htags : s'.consumerTags = s.consumerTags) (hchannels : s'.deliveryChannels = s.deliveryChannels) :
    Bare s' := by
  have hnone : ∀ t, s'.deliveryChannels t = none := by
    intro t
    rw [hchannels, h.channels t]
  refine ⟨emptied_of_dropped h.emptied hbroker (fun t => .inl ?_) (linked_of_none hnone), hnone⟩
  rw [htags]

/-- Without a connection there is nothing to close. -/
theorem Tracked.bare {s : Process} (h : Tracked s) (hconnection : s.activeConnection = none) :
    Bare s := by
  have hfacing : Facing none s.heldChannels s := hconnection ▸ h.facing
  refine ⟨⟨h, hfacing.none_of_disconnected⟩, fun t => ?_⟩
  by_contra hne
  obtain ⟨channel, hchannel⟩ := Option.ne_none_iff_exists'.1 hne
  have hlinked := h.linked t channel hchannel
  rw [hconnection] at hlinked
  cases hlinked

theorem closeRecoveryBroker_closes (hheld : held ≠ []) :
    Triple machine orderlyDiscipline stop held Tracked closeRecoveryBroker (Closes Bare) := by
  refine triple_read (fun s hs => hs.orderly) fun connection => ?_
  refine triple_read (fun s hs => hs.1.orderly) fun channels => ?_
  split
  · next hclosed =>
    have hnone : connection = none := by simpa using (Bool.and_eq_true_iff.1 hclosed).1
    subst hnone
    refine triple_read (fun s hs => hs.1.1.orderly) fun tagged => ?_
    split
    · have hfailed : Upholds stop held Tracked cancellationFailed :=
        cancellationFailed_ending.upholds (tracked_stable hheld)
      refine triple_bind (hfailed.mono (fun s hs => hs.1.1.1) fun _ _ hs => hs) ?_ fun _ s hs => ?_
      · exact fun _ => triple_pure fun s hs => closes_false hs
      · exact closes_error hs
    · exact triple_pure fun s hs => ⟨hs.1.1.1, fun _ => hs.1.1.1.bare hs.1.1.2⟩
  · have hfacing : ∀ s, (Tracked s ∧ s.activeConnection = connection) ∧ s.heldChannels = channels →
        Facing connection channels s := by
      rintro s ⟨⟨hs, rfl⟩, rfl⟩
      exact hs.facing
    refine triple_bind ((closeRecoveryTransport_closes hheld connection channels).mono hfacing
      fun _ _ hs => hs) ?_ fun _ s hs => closes_error hs.1
    intro closed
    cases closed with
    | false => exact triple_pure fun s hs => closes_false hs.1
    | true =>
      have hforget : Triple machine orderlyDiscipline stop held Emptied
          (write Process.forgetTransport >>= fun _ => pure true) (Closes Bare) := by
        refine triple_write_bind (fun s hs => ?_) (triple_pure fun s hs => ⟨hs.emptied.1, fun _ => hs⟩)
        have hlinked : Linked s.forgetTransport := linked_of_none fun _ => rfl
        have hemptied : Emptied s.forgetTransport :=
          emptied_of_dropped hs rfl (fun _ => .inr rfl) hlinked
        exact ⟨hemptied.1.orderly, guar_of_broker hheld rfl, hemptied, fun _ => rfl⟩
      exact hforget.mono (fun s hs => hs.2 rfl) fun _ _ hs => hs

/-! ## Starting -/

/-- A type whose consumer is missing has no live subscription either. -/
structure Missing (t : DataType) (s : Process) : Prop where
  tracked : Tracked s
  tag : s.consumerTags t = none

/-- Its channel is open and its queue declared. -/
structure Ready (t : DataType) (channel : Channel) (s : Process) : Prop where
  missing : Missing t s
  delivery : s.deliveryChannels t = some channel
  queued : s.queues t = some channel

/-- The broker has registered the consumer, and its tag is on the way. -/
structure Registered (t : DataType) (channel : Channel) (tag : Tag) (s : Process) : Prop where
  orderly : Orderly s
  linked : Linked s
  untracked : s.consumerTags t = none
  delivery : s.deliveryChannels t = some channel
  queued : s.queues t = some channel
  issued : tag < s.broker.issued
  started : ∀ a ∈ s.broker.subscriptions, a.dataType = t → a.tag = tag ∧ a.channel = channel
  own : ∀ a ∈ s.broker.subscriptions, a.tag = tag → a.dataType = t
  traced : ∀ a ∈ s.broker.subscriptions, a.dataType ≠ t → s.Traces a

theorem missing_stable (hheld : held ≠ []) (t : DataType) : Stable held (Missing t) := by
  refine .of_mild hheld (fun s hs => hs.tracked.orderly) fun s s' hs hmild => ?_
  exact ⟨hs.tracked.mild hmild, hmild.tag_none hs.tag⟩

theorem ready_stable (hheld : held ≠ []) (t : DataType) (channel : Channel) :
    Stable held (Ready t channel) := by
  refine .of_mild hheld (fun s hs => hs.missing.tracked.orderly) fun s s' hs hmild => ?_
  refine ⟨(missing_stable hheld t).mild hs.missing hmild, ?_, ?_⟩
  · rw [hmild.deliveryChannels, hs.delivery]
  · rw [hmild.queues, hs.queued]

theorem registered_stable (hheld : held ≠ []) (t : DataType) (channel : Channel) (tag : Tag) :
    Stable held (Registered t channel tag) := by
  refine .of_mild hheld (fun s hs => hs.orderly) fun s s' hs hmild => ?_
  refine ⟨hs.orderly.mild hmild, hs.linked.mild hmild, hmild.tag_none hs.untracked, ?_, ?_, ?_, ?_, ?_, ?_⟩
  · rw [hmild.deliveryChannels, hs.delivery]
  · rw [hmild.queues, hs.queued]
  · exact hs.issued.trans_le hmild.issued
  · exact fun a ha => hs.started a (hmild.mem ha)
  · exact fun a ha => hs.own a (hmild.mem ha)
  · exact fun a ha hne => (hs.traced a (hmild.mem ha) hne).mild hmild ha

/-- The channel or the queue of a type may change while nothing of it is live. -/
theorem Missing.of_broker {t : DataType} {s s' : Process} (h : Missing t s)
    (hbroker : s'.broker = s.broker) (htags : s'.consumerTags = s.consumerTags)
    (hchannels : ∀ t', t' ≠ t → s'.deliveryChannels t' = s.deliveryChannels t')
    (hqueues : ∀ t', t' ≠ t → s'.queues t' = s.queues t')
    (hlinked : Linked s') : Missing t s' := by
  have hold := h.tracked.orderly
  have htraced : ∀ a ∈ s'.broker.subscriptions, s'.Traces a := by
    intro a ha
    rw [hbroker] at ha
    have htrace := h.tracked.traced a ha
    have hne := h.tracked.not_live h.tag ha
    exact ⟨by rw [htags, htrace.tag], by rw [hchannels _ hne, htrace.channel]⟩
  refine ⟨⟨⟨?_, ?_, ?_, ?_, ?_, ?_, ?_⟩, htraced, hlinked⟩, by rw [htags, h.tag]⟩
  · rw [hbroker]
    exact hold.single
  · exact fun a ha => .inl (htraced a ha).tag
  · rw [hbroker]
    exact hold.opened
  · rw [hbroker]
    exact hold.issued
  · rw [hbroker, htags]
    exact hold.tags
  · rw [hbroker, htags]
    exact hold.own
  · rw [hbroker, htags]
    intro a ha htag
    rw [hqueues _ (h.tracked.not_live h.tag ha)]
    exact hold.queued a ha htag

theorem Linked.setDeliveryChannel {t : DataType} {channel : Option Channel} {s : Process}
    (h : Linked s) (hchannel : ∀ c, channel = some c → s.activeConnection = some c.connection) :
    Linked (s.setDeliveryChannel t channel) := by
  intro t' c hc
  by_cases ht : t' = t
  · subst ht
    rw [Process.setDeliveryChannel_self] at hc
    exact hchannel c hc
  · rw [Process.setDeliveryChannel_of_ne _ _ ht] at hc
    exact h t' c hc

theorem Missing.setDeliveryChannel {t : DataType} {channel : Option Channel} {s : Process}
    (h : Missing t s) (hchannel : ∀ c, channel = some c → s.activeConnection = some c.connection) :
    Missing t (s.setDeliveryChannel t channel) :=
  h.of_broker rfl rfl (fun _ hne => s.setDeliveryChannel_of_ne channel hne) (fun _ _ => rfl)
    (h.tracked.linked.setDeliveryChannel hchannel)

theorem deliveryChannel_bound (hheld : held ≠ []) (t : DataType) :
    Triple machine orderlyDiscipline stop held (Missing t) (deliveryChannel t)
      (Returns (fun channel s => Missing t s ∧ s.deliveryChannels t = some channel) (Missing t)) := by
  have hmissing := missing_stable hheld t
  refine triple_read (fun s hs => hs.tracked.orderly) fun open? => ?_
  cases open? with
  | some channel =>
    exact triple_pure fun s hs => ⟨hs.1, (Option.filter_eq_some_iff.1 hs.2).1⟩
  | none =>
    refine triple_read (fun s hs => hs.1.tracked.orderly) fun connection? => ?_
    cases connection? with
    | none => exact triple_raise fun s hs => hs.1.1
    | some connection =>
      have hconnected : Stable held fun s => Missing t s ∧ s.activeConnection = some connection :=
        .of_mild hheld (fun s hs => hs.1.tracked.orderly) fun s s' hs hmild =>
          ⟨hmissing.mild hs.1 hmild, hmild.activeConnection.trans hs.2⟩
      have hrpc : ∀ request, request.starts = false → Upholds stop held
          (fun s => Missing t s ∧ s.activeConnection = some connection) (rpc request) :=
        fun request hstarts => (rpc_ending hstarts).upholds hconnected
      refine triple_bind ((hrpc (.openChannel connection) rfl).mono (fun s hs => ⟨hs.1.1, hs.2⟩)
        fun _ _ hs => hs) (fun number => ?_) fun _ s hs => hs.1
      refine triple_bind (hrpc (.setQos ⟨connection, number⟩) rfl) (fun _ => ?_) fun _ s hs => hs.1
      refine triple_write_bind (fun s hs => ?_) (triple_pure fun s hs => hs)
      have hset : Missing t (s.setDeliveryChannel t (some ⟨connection, number⟩)) :=
        hs.1.setDeliveryChannel fun c hc => by cases hc; exact hs.2
      exact ⟨hset.tracked.orderly, guar_of_broker hheld rfl, hset, s.setDeliveryChannel_self _⟩

/-- A new subscription of a type that has none. -/
def Process.registered (s : Process) (t : DataType) (channel : Channel) : Process :=
  { s with broker := { s.broker with
    subscriptions := ⟨s.broker.issued, channel, t⟩ :: s.broker.subscriptions
    issued := s.broker.issued + 1 } }

section

variable {t : DataType} {channel : Channel} {s : Process}

theorem Ready.mem_heldChannels (h : Ready t channel s) : channel ∈ s.heldChannels := by
  refine List.mem_append_left _ (List.mem_filterMap.2 ⟨t, ?_, h.delivery⟩)
  cases t <;> simp [typeOrder]

/-- No tag in use is the next one. -/
theorem Orderly.fresh (h : Orderly s) (t : DataType) : s.consumerTags t ≠ some s.broker.issued :=
  fun ht => absurd (h.tags t _ ht) (Nat.lt_irrefl _)

theorem Ready.orderly_registered (h : Ready t channel s) (hopen : channel ∈ s.broker.channels) :
    Orderly (s.registered t channel) := by
  have hold := h.missing.tracked.orderly
  have hlt : s.broker.issued < s.broker.issued + 1 := Nat.lt_succ_self _
  refine ⟨?_, ?_, ?_, ?_, ?_, ?_, ?_⟩
  · refine List.nodup_cons.2 ⟨fun hmem => ?_, hold.single⟩
    obtain ⟨a, ha, hat⟩ := List.mem_map.1 hmem
    exact h.missing.tracked.not_live h.missing.tag ha hat
  · exact List.forall_mem_cons.2 ⟨.inr (.inl h.mem_heldChannels), hold.holds⟩
  · exact List.forall_mem_cons.2 ⟨hopen, hold.opened⟩
  · exact List.forall_mem_cons.2 ⟨hlt, fun a ha => (hold.issued a ha).trans hlt⟩
  · exact fun t' tag ht => (hold.tags t' tag ht).trans hlt
  · exact List.forall_mem_cons.2 ⟨fun t' ht => absurd ht (hold.fresh t'), hold.own⟩
  · exact List.forall_mem_cons.2 ⟨fun ht => absurd ht (hold.fresh t), hold.queued⟩

theorem Ready.registered (h : Ready t channel s) (hopen : channel ∈ s.broker.channels) :
    Registered t channel s.broker.issued (s.registered t channel) := by
  have hold := h.missing.tracked.orderly
  have hlive : ∀ a ∈ s.broker.subscriptions, a.dataType ≠ t :=
    fun a ha => h.missing.tracked.not_live h.missing.tag ha
  refine ⟨h.orderly_registered hopen, h.missing.tracked.linked, h.missing.tag, h.delivery, h.queued,
    Nat.lt_succ_self _, ?_, ?_, ?_⟩
  · exact List.forall_mem_cons.2 ⟨fun _ => ⟨rfl, rfl⟩, fun a ha hat => absurd hat (hlive a ha)⟩
  · refine List.forall_mem_cons.2 ⟨fun _ => rfl, fun a ha htag => ?_⟩
    exact absurd (hold.issued a ha) (htag ▸ Nat.lt_irrefl _)
  · refine List.forall_mem_cons.2 ⟨fun hne => absurd rfl hne, fun a ha _ => ?_⟩
    have htrace := h.missing.tracked.traced a ha
    exact ⟨htrace.tag, htrace.channel⟩

theorem registered_later (s : Process) (t : DataType) (channel : Channel) :
    Later s (s.registered t channel) :=
  ⟨Nat.le_succ _, List.forall_mem_cons.2 ⟨.inr le_rfl, fun _ ha => .inl ha⟩⟩

end

/-- A `consume` whose answer comes back; one that fails has registered nothing. -/
theorem consume_registers (hheld : held ≠ []) (t : DataType) (channel : Channel) :
    Triple machine orderlyDiscipline none held (Ready t channel) (rpc (.consume channel t))
      (Returns (fun tag => Registered t channel tag) (Missing t)) := by
  have hready := ready_stable hheld t channel
  -- the request first: the broker registers the consumer before its answer is on the way
  have hact : Triple machine orderlyDiscipline none held (Ready t channel)
      (wait (.act (.consume channel t)))
      (Returns (fun result s => match result with
        | some tag => Registered t channel tag s
        | none => Missing t s) (Missing t)) := by
    refine triple_wait hready.rely ?_ fun e he => nomatch he
    intro choice s reply s' hs hinv _ hperform
    simp only [machine, perform] at hperform
    split at hperform
    · next n broker hacted =>
      cases hperform
      cases hchoice : choice.acted with
      | false =>
        rw [hchoice] at hacted
        cases hacted
      | true =>
        simp only [hchoice, if_true, Broker.act] at hacted
        split at hacted
        · next hopen =>
          cases hacted
          have hregistered := hs.registered hopen
          exact ⟨hregistered.orderly, guar_of_later hheld (registered_later s t channel), hregistered⟩
        · cases hacted
    · cases hperform
      exact ⟨hinv, guar_of_mild (.refl s), hs.missing⟩
  refine triple_bind hact (fun result => ?_) fun _ _ hs => hs
  cases result with
  | none =>
    -- then the answer, which a fair broker delivers
    have hreply : Upholds none held (Missing t) (wait (.reply (.consume channel t) none)) :=
      Ending.upholds (only_wait trivial) (missing_stable hheld t)
    exact triple_bind hreply (fun _ => triple_raise fun _ hs => hs) fun _ _ hs => hs
  | some tag =>
    have hreply : Triple machine orderlyDiscipline none held (Registered t channel tag)
        (wait (.reply (.consume channel t) (some tag)))
        (Returns (fun delivered s => delivered = true ∧ Registered t channel tag s) (Missing t)) := by
      have hstable := registered_stable hheld t channel tag
      refine triple_wait hstable.rely ?_ fun e he => nomatch he
      intro choice s reply s' hs hinv hfair hperform
      cases hperform
      have hmild := noteStart_mild s (true && true && choice.delivered)
      exact ⟨hinv.mild hmild, guar_of_mild hmild, hfair rfl rfl, hstable.mild hs hmild⟩
    refine triple_bind hreply (fun delivered => ?_) fun _ _ hs => hs
    cases delivered with
    | true => exact triple_pure fun s hs => hs.2
    | false => exact triple_raise fun s hs => absurd hs.1 Bool.false_ne_true

theorem startConsumer_registers (hheld : held ≠ []) (t : DataType) :
    Triple machine orderlyDiscipline none held (Missing t) (startConsumer t)
      (Returns (fun tag s => ∃ channel, Registered t channel tag s) (Missing t)) := by
  refine triple_bind (deliveryChannel_bound hheld t) (fun channel => ?_) fun _ _ hs => hs
  have hbound : Stable held fun s => Missing t s ∧ s.deliveryChannels t = some channel :=
    .of_mild hheld (fun s hs => hs.1.tracked.orderly) fun s s' hs hmild =>
      ⟨(missing_stable hheld t).mild hs.1 hmild, by rw [hmild.deliveryChannels, hs.2]⟩
  refine triple_bind ((rpc_ending rfl).upholds hbound) (fun _ => ?_) fun _ _ hs => hs.1
  have hconsume : Triple machine orderlyDiscipline none held (Ready t channel) (rpc (.consume channel t))
      (Returns (fun tag s => ∃ channel, Registered t channel tag s) (Missing t)) := by
    refine (consume_registers hheld t channel).mono (fun _ hs => hs) fun r s hs => ?_
    cases r with
    | ok tag => exact ⟨channel, hs⟩
    | error e => exact hs
  refine triple_write_bind (fun s hs => ?_) hconsume
  have hmissing : Missing t (s.setQueue t channel) :=
    hs.1.of_broker rfl rfl (fun _ _ => rfl) (fun _ hne => s.setQueue_of_ne channel hne)
      hs.1.tracked.linked
  exact ⟨hmissing.tracked.orderly, guar_of_broker hheld rfl, hmissing, hs.2, s.setQueue_self channel⟩

/-- The tag has arrived. -/
theorem Registered.tracked {t : DataType} {channel : Channel} {tag : Tag} {s : Process}
    (h : Registered t channel tag s) : Tracked (s.trackTag t tag) := by
  have htag : ∀ t', (s.trackTag t tag).consumerTags t' =
      if t' = t then some tag else s.consumerTags t' := fun t' => Function.update_apply _ _ _ _
  have htraced : ∀ a ∈ s.broker.subscriptions, (s.trackTag t tag).Traces a := by
    intro a ha
    by_cases hat : a.dataType = t
    · obtain ⟨hatag, hachannel⟩ := h.started a ha hat
      refine ⟨by rw [htag, if_pos hat, hatag], ?_⟩
      show s.deliveryChannels a.dataType = some a.channel
      rw [hat, h.delivery, hachannel]
    · have htrace := h.traced a ha hat
      exact ⟨by rw [htag, if_neg hat, htrace.tag], htrace.channel⟩
  refine ⟨⟨h.orderly.single, fun a ha => .inl (htraced a ha).tag, h.orderly.opened, h.orderly.issued,
    ?_, ?_, ?_⟩, htraced, h.linked⟩
  · intro t' tag' ht
    rw [htag] at ht
    split at ht
    · cases ht
      exact h.issued
    · exact h.orderly.tags t' tag' ht
  · intro a ha t' ht
    rw [htag] at ht
    split at ht
    · next heq =>
      cases ht
      rw [heq, h.own a ha rfl]
    · exact h.orderly.own a ha t' ht
  · intro a ha ht
    show s.queues a.dataType = some a.channel
    by_cases hat : a.dataType = t
    · rw [hat, h.queued, (h.started a ha hat).2]
    · exact h.orderly.queued a ha (h.traced a ha hat).tag

theorem startTracked_tracks (hheld : held ≠ []) (t : DataType) :
    Triple machine orderlyDiscipline none held (Missing t) (startTracked t)
      (Returns (fun _ => Tracked) (Missing t)) := by
  refine triple_bind (startConsumer_registers hheld t) (fun tag => ?_) fun _ _ hs => hs
  refine triple_write fun s hs => ?_
  obtain ⟨channel, hregistered⟩ := hs
  have htracked := hregistered.tracked
  exact ⟨htracked.orderly, guar_of_broker hheld rfl, htracked⟩

/-! ## Recovery -/

theorem onActiveChannel_ending {request : Channel → Rpc}
    (h : ∀ channel, (request channel).starts = false) : Ending (onActiveChannel request) := by
  refine only_bind (read_ending _) fun channel? => ?_
  cases channel? with
  | none => trivial
  | some channel => exact only_bind (rpc_ending (h channel)) fun _ => trivial

theorem queuesWithMessages_ending (channel : Channel) (types : List DataType) :
    Ending (queuesWithMessages channel types) := by
  induction types with
  | nil => trivial
  | cons t types ih =>
    exact only_bind (rpc_ending rfl) fun _ => only_bind ih fun _ => trivial

theorem queueDepth_ending (t : DataType) : Ending (queueDepth t) := by
  refine only_bind (read_ending _) fun connection? => ?_
  cases connection? with
  | none => trivial
  | some connection =>
    refine tryExcept_only (only_bind (rpc_ending rfl) fun number => ?_) trivial
    refine only_ensuring (tryExcept_only ?_ trivial) ?_
    · exact only_bind (rpc_ending rfl) fun _ => trivial
    · exact only_bind (confirmed_ending rfl) fun _ => trivial

/-- A write to what no live subscription depends on. -/
theorem bare_write {f : Process → Process} (hheld : held ≠ [])
    (hbroker : ∀ s, (f s).broker = s.broker) (htags : ∀ s, (f s).consumerTags = s.consumerTags)
    (hchannels : ∀ s, (f s).deliveryChannels = s.deliveryChannels) :
    Upholds stop held Bare (write f) := by
  refine triple_write fun s hs => ?_
  have hbare := hs.of_broker (hbroker s) (htags s) (hchannels s)
  exact ⟨hbare.emptied.1.orderly, guar_of_broker hheld (hbroker s), hbare⟩

theorem declareQueues_upholds (hheld : held ≠ []) (types : List DataType) :
    Upholds stop held Bare (declareQueues types) := by
  have hbare := bare_stable hheld
  have hactive : ∀ {request : Channel → Rpc}, (∀ channel, (request channel).starts = false) →
      Upholds stop held Bare (onActiveChannel request) :=
    fun h => (onActiveChannel_ending h).upholds hbare
  have hrpc : ∀ {request}, request.starts = false → Upholds stop held Bare (rpc request) :=
    fun h => (rpc_ending h).upholds hbare
  induction types with
  | nil => exact upholds_pure ()
  | cons t types ih =>
    refine upholds_bind (hactive fun _ => rfl) fun _ => upholds_bind (hactive fun _ => rfl) fun _ => ?_
    refine upholds_bind (hactive fun _ => rfl) fun _ => upholds_bind (hrpc rfl) fun _ => ?_
    refine upholds_bind (hactive fun _ => rfl) fun _ => upholds_bind (hrpc rfl) fun _ => ?_
    exact upholds_bind (bare_write hheld (fun _ => rfl) (fun _ => rfl) fun _ => rfl) fun _ => ih

theorem startMissing_upholds (hheld : held ≠ []) (backlog : List DataType) (t : DataType) :
    Upholds none held Tracked (startMissing backlog t) := by
  refine triple_read (fun s hs => hs.orderly) fun missing => ?_
  cases missing with
  | false => exact triple_pure fun s hs => hs.1
  | true =>
    have hmissing : ∀ s, Tracked s ∧ ((s.queues t).isSome && (s.consumerTags t).isNone) = true →
        Missing t s := by
      intro s hs
      exact ⟨hs.1, Option.isNone_iff_eq_none.1 (Bool.and_eq_true_iff.1 hs.2).2⟩
    have hcomplete : Ending (write fun s : Process =>
        { s with completedFiles := s.completedFiles.erase t }) :=
      only_write fun _ => .of_eq rfl rfl rfl rfl rfl rfl
    refine triple_bind ((startTracked_tracks hheld t).mono hmissing fun _ _ hs => hs) ?_
      fun _ s hs => hs.tracked
    exact fun _ => upholds_when (hcomplete.upholds (tracked_stable hheld))

theorem startAllMissing_upholds (hheld : held ≠ []) (backlog types : List DataType) :
    Upholds none held Tracked (startAllMissing backlog types) := by
  induction types with
  | nil => exact upholds_pure ()
  | cons t types ih => exact upholds_bind (startMissing_upholds hheld backlog t) fun _ => ih

theorem closeRecoveryBroker_upholds (hheld : held ≠ []) :
    Upholds stop held Tracked closeRecoveryBroker :=
  (closeRecoveryBroker_closes hheld).mono (fun _ hs => hs) fun _ _ hs => hs.1

theorem restartConsumers_tracks (hheld : held ≠ []) (channel : Channel) :
    Triple machine orderlyDiscipline none held Bare (restartConsumers channel) fun _ => Tracked := by
  have hbare := bare_stable hheld
  have hweak : ∀ s, Bare s → Tracked s := fun s hs => hs.emptied.1
  refine triple_bind ((queuesWithMessages_ending channel typeOrder).upholds hbare) (fun backlog => ?_)
    fun _ => hweak
  refine triple_bind ((read_ending _).upholds hbare) (fun incomplete => ?_) fun _ => hweak
  split
  · refine triple_bind ((onActiveChannel_ending fun _ => rfl).upholds hbare) (fun _ => ?_) fun _ => hweak
    refine triple_bind (bare_write hheld (fun _ => rfl) (fun _ => rfl) fun _ => rfl) (fun _ => ?_)
      fun _ => hweak
    refine triple_bind (declareQueues_upholds hheld typeOrder) (fun _ => ?_) fun _ => hweak
    exact (startAllMissing_upholds hheld backlog typeOrder).mono hweak fun _ _ hs => hs
  · have hclose : Triple machine orderlyDiscipline none held Bare closeRecoveryBroker fun _ => Tracked :=
      (closeRecoveryBroker_upholds hheld).mono hweak fun _ _ hs => hs
    exact triple_bind hclose (fun _ => upholds_pure ()) fun _ _ hs => hs

/-- What the new transport carries. -/
def Opened (r : Except Failure (Option Channel)) (s : Process) : Prop :=
  Tracked s ∧ ∀ channel, r = .ok (some channel) → Bare s

theorem openRecoveryTransport_opens (hheld : held ≠ []) :
    Triple machine orderlyDiscipline stop held Bare openRecoveryTransport Opened := by
  have hbare := bare_stable hheld
  have hrpc : ∀ {request}, request.starts = false → Upholds stop held Bare (rpc request) :=
    fun h => (rpc_ending h).upholds hbare
  have hopen : Triple machine orderlyDiscipline stop held Bare
      (do
        let connection ← rpc .connect
        write fun s => { s with activeConnection := some connection }
        let number ← rpc (.openChannel connection)
        let channel : Channel := ⟨connection, number⟩
        write fun s => { s with activeChannel := some channel }
        pure (some channel)) fun _ => Bare := by
    refine upholds_bind (hrpc rfl) fun connection => ?_
    refine upholds_bind (bare_write hheld (fun _ => rfl) (fun _ => rfl) fun _ => rfl) fun _ => ?_
    refine upholds_bind (hrpc rfl) fun number => ?_
    exact upholds_bind (bare_write hheld (fun _ => rfl) (fun _ => rfl) fun _ => rfl) fun _ => upholds_pure _
  refine triple_tryCatch hopen (fun channel? s hs => ⟨hs.emptied.1, fun _ _ => hs⟩) fun e => ?_
  have hfailed : ∀ {e : Failure} s, Tracked s → Opened (.error e) s :=
    fun s hs => ⟨hs, fun _ h => by cases h⟩
  cases e with
  | cancelled =>
    have hfail : Upholds stop held Tracked cancellationFailed :=
      cancellationFailed_ending.upholds (tracked_stable hheld)
    exact triple_bind (hfail.mono (fun s hs => hs.emptied.1) fun _ _ hs => hs)
      (fun _ => triple_raise hfailed) fun _ => hfailed
  | exception name =>
    have hclose : Triple machine orderlyDiscipline stop held Bare closeRecoveryBroker fun _ => Tracked :=
      (closeRecoveryBroker_upholds hheld).mono (fun s hs => hs.emptied.1) fun _ _ hs => hs
    exact triple_bind hclose (fun _ => triple_pure fun s hs => ⟨hs, fun _ h => by cases h⟩) fun _ => hfailed

theorem replaceTransport_upholds (hheld : held ≠ []) :
    Upholds none held Tracked replaceTransport := by
  refine triple_bind (closeRecoveryBroker_closes hheld) (fun closed => ?_) fun _ s hs => hs.1
  cases closed with
  | false => exact triple_pure fun s hs => hs.1
  | true =>
    refine triple_bind ((openRecoveryTransport_opens hheld).mono (fun s hs => hs.2 rfl) fun _ _ hs => hs)
      (fun channel? => ?_) fun _ s hs => hs.1
    cases channel? with
    | none => exact triple_pure fun s hs => hs.1
    | some channel =>
      refine triple_tryCatch ((restartConsumers_tracks hheld channel).mono
        (fun s hs => hs.2 channel rfl) fun _ _ hs => hs) (fun _ _ hs => hs) fun e => ?_
      cases e with
      | cancelled =>
        exact upholds_bind (cancellationFailed_ending.upholds (tracked_stable hheld)) fun _ =>
          upholds_raise _
      | exception name => exact upholds_bind (closeRecoveryBroker_upholds hheld) fun _ => upholds_pure ()

/-- The channel of a type is taken off, and its consumer not yet replaced. -/
structure Detached (t : DataType) (old : Option Channel) (oldTag : Option Tag) (s : Process) : Prop where
  orderly : Orderly s
  tags : ∀ a ∈ s.broker.subscriptions, s.consumerTags a.dataType = some a.tag
  others : ∀ a ∈ s.broker.subscriptions, a.dataType ≠ t → s.deliveryChannels a.dataType = some a.channel
  last : ∀ a ∈ s.broker.subscriptions, a.dataType = t → old = some a.channel
  linked : Linked s
  lastLinked : ∀ channel, old = some channel → s.activeConnection = some channel.connection
  untagged : oldTag = none → s.consumerTags t = none

theorem detached_stable (hheld : held ≠ []) (t : DataType) (old : Option Channel)
    (oldTag : Option Tag) : Stable held (Detached t old oldTag) := by
  refine .of_mild hheld (fun s hs => hs.orderly) fun s s' hs hmild => ?_
  refine ⟨hs.orderly.mild hmild, ?_, ?_, ?_, hs.linked.mild hmild, ?_, ?_⟩
  · exact fun a ha => hmild.tag_of_live ha (hs.tags a (hmild.mem ha))
  · intro a ha hne
    rw [hmild.deliveryChannels]
    exact hs.others a (hmild.mem ha) hne
  · exact fun a ha => hs.last a (hmild.mem ha)
  · intro channel hold
    rw [hmild.activeConnection]
    exact hs.lastLinked channel hold
  · exact fun hold => hmild.tag_none (hs.untagged hold)

/-- Taking the channel of a type off changes nothing else. -/
theorem Tracked.detached {t : DataType} {s : Process} (h : Tracked s) :
    Detached t (s.deliveryChannels t) (s.consumerTags t) (s.setDeliveryChannel t none) := by
  have hne : ∀ a ∈ s.broker.subscriptions, a.dataType ≠ t →
      (s.setDeliveryChannel t none).deliveryChannels a.dataType = some a.channel := by
    intro a ha hat
    rw [s.setDeliveryChannel_of_ne none hat, (h.traced a ha).channel]
  refine ⟨⟨h.orderly.single, fun a ha => .inl (h.traced a ha).tag, h.orderly.opened,
    h.orderly.issued, h.orderly.tags, h.orderly.own, h.orderly.queued⟩, ?_, hne, ?_, ?_, ?_, id⟩
  · exact fun a ha => (h.traced a ha).tag
  · exact fun a ha hat => hat ▸ (h.traced a ha).channel
  · exact h.linked.setDeliveryChannel fun c hc => by cases hc
  · exact fun channel hold => h.linked t channel hold

/-- Once the old consumer has ended all that is live is tracked. -/
theorem Detached.tracked {t : DataType} {old : Option Channel} {oldTag : Option Tag} {s : Process}
    (h : Detached t old oldTag s) (hfree : Free (fun a => a.dataType = t) s) : Tracked s :=
  ⟨h.orderly, fun a ha => ⟨h.tags a ha, h.others a ha (hfree a ha)⟩, h.linked⟩

/-- Putting an open channel back. -/
theorem Detached.restored {t : DataType} {channel : Channel} {oldTag : Option Tag} {s : Process}
    (h : Detached t (some channel) oldTag s) : Tracked (s.setDeliveryChannel t (some channel)) := by
  refine ⟨⟨h.orderly.single, fun a ha => .inl (h.tags a ha), h.orderly.opened, h.orderly.issued,
    h.orderly.tags, h.orderly.own, h.orderly.queued⟩, fun a ha => ⟨h.tags a ha, ?_⟩, ?_⟩
  · by_cases hat : a.dataType = t
    · rw [hat, s.setDeliveryChannel_self, h.last a ha hat]
    · rw [s.setDeliveryChannel_of_ne _ hat, h.others a ha hat]
  · exact h.linked.setDeliveryChannel fun c hc => by cases hc; exact h.lastLinked channel rfl

/-- The old consumer has ended. -/
structure Parted (t : DataType) (oldTag : Option Tag) (s : Process) : Prop where
  tracked : Tracked s
  ended : Free (fun a => a.dataType = t) s
  untagged : oldTag = none → s.consumerTags t = none

theorem Detached.parted {t : DataType} {channel : Channel} {oldTag : Option Tag} {s : Process}
    (h : Detached t (some channel) oldTag s) (hfree : Free (fun a => a.channel = channel) s) :
    Parted t oldTag s := by
  have hended : Free (fun a => a.dataType = t) s := by
    intro a ha hat
    exact hfree a ha (Option.some.inj (h.last a ha hat)).symm
  exact ⟨h.tracked hended, hended, h.untagged⟩

theorem closeOldChannel_parts (hheld : held ≠ []) (t : DataType) (old : Option Channel)
    (oldTag : Option Tag) :
    Triple machine orderlyDiscipline none held (Detached t old oldTag) (closeOldChannel t old)
      (Closes (Parted t oldTag)) := by
  have hdetached := detached_stable hheld t old oldTag
  cases old with
  | none =>
    refine triple_pure fun s hs => ?_
    have hended : Free (fun a => a.dataType = t) s := fun a ha hat => by cases hs.last a ha hat
    have hparted : Parted t oldTag s := ⟨hs.tracked hended, hended, hs.untagged⟩
    exact ⟨hparted.tracked, fun _ => hparted⟩
  | some channel =>
    have hclosed := hdetached.free hheld fun a => a.channel = channel
    have hclose : Triple machine orderlyDiscipline none held (Detached t (some channel) oldTag)
        (do
          let _ ← rpc (.closeChannel channel)
          pure true)
        fun
          | .ok _, s => Parted t oldTag s
          | .error e, s => Detached t (some channel) oldTag s ∧ e ≠ .cancelled := by
      refine triple_bind (rpc_answered rfl hdetached hclosed fun s hs hfree => ⟨hs, hfree⟩) ?_ ?_
      · exact fun _ => triple_pure fun s hs => hs.1.parted hs.2
      · exact fun e s hs => ⟨hs.1, fun h => nomatch hs.2 h⟩
    refine triple_tryExcept hclose (fun b s hs => ⟨hs.tracked, fun _ => hs⟩) (fun name => ?_) ?_
    · refine triple_read (fun s hs => hs.1.orderly) fun closed => ?_
      cases closed with
      | true =>
        refine triple_pure fun s hs => ?_
        have hnot : channel ∉ s.broker.channels := of_decide_eq_true hs.2
        have hparted := hs.1.1.parted fun a ha hchannel =>
          hnot (hchannel ▸ hs.1.1.orderly.opened a ha)
        exact ⟨hparted.tracked, fun _ => hparted⟩
      | false =>
        refine triple_write_bind (fun s hs => ?_) (triple_pure fun s hs => closes_false hs)
        have hrestored := hs.1.1.restored
        exact ⟨hrestored.orderly, guar_of_broker hheld rfl, hrestored⟩
    · exact fun s hs => absurd rfl hs.2

/-- Dropping a tag whose subscription has ended. -/
theorem untrackTag_mild {t : DataType} {s : Process}
    (hended : ∀ a ∈ s.broker.subscriptions, s.consumerTags t ≠ some a.tag) :
    Mild s (s.untrackTag t) := by
  refine ⟨List.Sublist.refl _, le_rfl, fun _ _ h => h, fun t' => ?_, rfl, rfl, rfl, rfl⟩
  by_cases ht : t' = t
  · subst ht
    exact .inr ⟨s.setTag_self none, hended⟩
  · exact .inl (s.setTag_of_ne none ht)

theorem Parted.missing {t : DataType} {oldTag : Option Tag} {s : Process} (h : Parted t oldTag s) :
    Missing t (s.untrackTag t) := by
  refine ⟨h.tracked.mild (untrackTag_mild fun a ha ht => ?_), s.setTag_self none⟩
  exact h.ended a ha (h.tracked.orderly.own a ha t ht).symm

theorem startOrDrop_tracks (hheld : held ≠ []) (t : DataType) :
    Triple machine orderlyDiscipline none held (Missing t) (startOrDrop t) fun _ => Tracked := by
  have hstart : Triple machine orderlyDiscipline none held (Missing t)
      (do
        startTracked t
        pure true) (Returns (fun _ => Tracked) (Missing t)) :=
    triple_bind (startTracked_tracks hheld t) (fun _ => triple_pure fun s hs => hs) fun _ _ hs => hs
  refine triple_tryExcept hstart (fun _ _ hs => hs) (fun name => ?_) fun s hs => hs.tracked
  refine triple_write_bind (fun s hs => ?_) (upholds_pure false)
  have hdropped : Missing t (s.setDeliveryChannel t none) :=
    hs.setDeliveryChannel fun c hc => by cases hc
  exact ⟨hdropped.tracked.orderly, guar_of_broker hheld rfl, hdropped.tracked⟩

theorem replaceConsumer_upholds (hheld : held ≠ []) (t : DataType) :
    Upholds none held Tracked (replaceConsumer t) := by
  refine triple_read (fun s hs => hs.orderly) fun oldChannel => ?_
  have hdetach : ∀ s, Tracked s ∧ s.deliveryChannels t = oldChannel →
      Detached t oldChannel (s.consumerTags t) (s.setDeliveryChannel t none) := by
    rintro s ⟨hs, rfl⟩
    exact hs.detached
  refine triple_write_bind (fun s hs => ⟨(hdetach s hs).orderly, guar_of_broker hheld rfl, hdetach s hs⟩)
    (triple_read (P := fun s => Detached t oldChannel (s.consumerTags t) s) (fun s hs => hs.orderly)
      fun oldTag => ?_)
  refine triple_bind ((closeOldChannel_parts hheld t oldChannel oldTag).mono ?_ fun _ _ hs => hs) ?_
    fun _ s hs => hs.1
  · rintro s ⟨hs, rfl⟩
    exact hs
  intro closed
  cases closed with
  | false => exact triple_pure fun s hs => hs.1
  | true =>
    have hforget : Triple machine orderlyDiscipline none held (fun s => Closes (Parted t oldTag) (.ok true) s)
        (when oldTag.isSome (write (·.untrackTag t))) fun _ => Missing t := by
      cases oldTag with
      | none => exact triple_pure fun s hs => ⟨hs.1, (hs.2 rfl).untagged rfl⟩
      | some tag =>
        refine triple_write fun s hs => ?_
        have hmissing := (hs.2 rfl).missing
        exact ⟨hmissing.tracked.orderly, guar_of_broker hheld rfl, hmissing⟩
    refine triple_bind hforget (fun _ => ?_) fun _ s hs => hs.tracked
    refine triple_read (fun s hs => hs.tracked.orderly) fun connection => ?_
    split
    · exact triple_pure fun s hs => hs.1.tracked
    · exact (startOrDrop_tracks hheld t).mono (fun s hs => hs.1) fun _ _ hs => hs

theorem resubscribeParked_upholds (hheld : held ≠ []) (t : DataType) :
    Upholds none held Tracked (resubscribeParked t) := by
  refine upholds_bind ((queueDepth_ending t).upholds (tracked_stable hheld)) fun depth => ?_
  refine triple_read (fun s hs => hs.orderly) fun skip => ?_
  cases skip with
  | true =>
    rw [Bool.not_true, Bool.and_false]
    exact triple_pure fun s hs => hs.1
  | false =>
    have hmissing : ∀ s, Tracked s ∧ ((s.consumerTags t).isSome || s.activeConnection.isNone) = false →
        Missing t s := by
      intro s hs
      have htag := Option.isSome_eq_false_iff.1 (Bool.or_eq_false_iff.1 hs.2).1
      exact ⟨hs.1, Option.isNone_iff_eq_none.1 htag⟩
    exact triple_when (triple_bind ((startOrDrop_tracks hheld t).mono hmissing fun _ _ hs => hs)
      (fun _ => upholds_pure ()) fun _ _ hs => hs) fun s hs => hs.1

theorem resubscribeAllParked_upholds (hheld : held ≠ []) (types : List DataType) :
    Upholds none held Tracked (resubscribeAllParked types) := by
  induction types with
  | nil => exact upholds_pure ()
  | cons t types ih => exact upholds_bind (resubscribeParked_upholds hheld t) fun _ => ih

/-! ## Pause and resumption -/

/-- The tag a tap of the type had when it was listed. -/
structure Listed (item : DataType × Tag) (s : Process) : Prop where
  own : ∀ a ∈ s.broker.subscriptions, a.tag = item.2 → a.dataType = item.1
  issued : item.2 < s.broker.issued
  tag : s.consumerTags item.1 = some item.2 ∨ s.consumerTags item.1 = none

structure Tapping (items : List (DataType × Tag)) (s : Process) : Prop where
  tracked : Tracked s
  listed : ∀ item ∈ items, Listed item s

theorem Listed.mild {item : DataType × Tag} {s s' : Process} (h : Listed item s)
    (hmild : Mild s s') : Listed item s' := by
  refine ⟨fun a ha => h.own a (hmild.mem ha), h.issued.trans_le hmild.issued, ?_⟩
  cases hmild.tags item.1 with
  | inl heq => rw [heq]; exact h.tag
  | inr hnone => exact .inr hnone.1

theorem tapping_stable (hheld : held ≠ []) (items : List (DataType × Tag)) :
    Stable held (Tapping items) := by
  refine .of_mild hheld (fun s hs => hs.tracked.orderly) fun s s' hs hmild => ?_
  exact ⟨hs.tracked.mild hmild, fun item hitem => (hs.listed item hitem).mild hmild⟩

theorem Tracked.tapping {s : Process} (h : Tracked s) : Tapping s.tagItems s := by
  refine ⟨h, fun item hitem => ?_⟩
  obtain ⟨t, _, ht⟩ := List.mem_filterMap.1 hitem
  obtain ⟨tag, htag, rfl⟩ := Option.map_eq_some_iff.1 ht
  refine ⟨fun a ha hat => ?_, h.orderly.tags t tag htag, .inl htag⟩
  subst hat
  exact (h.orderly.own a ha t htag).symm

/-- The queue a tap is cancelled on is the one its subscription is on. -/
theorem Tapping.aimed {items : List (DataType × Tag)} {item : DataType × Tag} {queue : Channel}
    {s : Process} (h : Tapping items s) (hitem : item ∈ items) (hqueue : s.queues item.1 = some queue) :
    Free (fun a => a.tag = item.2 ∧ a.channel ≠ queue) s := by
  intro a ha hends
  have hown := (h.listed item hitem).own a ha hends.1
  have htag := (h.tracked.traced a ha).tag
  have hqueued := h.tracked.orderly.queued a ha htag
  rw [hown, hqueue] at hqueued
  exact hends.2 (Option.some.inj hqueued).symm

theorem cancelTap_ends (hheld : held ≠ []) {items : List (DataType × Tag)} {item : DataType × Tag}
    (hitem : item ∈ items) :
    Triple machine orderlyDiscipline stop held (Tapping items) (cancelTap item.1 item.2)
      fun r s => Tapping items s ∧ (r = .ok true → Free (fun a => a.tag = item.2) s) := by
  have htapping := tapping_stable hheld items
  refine triple_read (fun s hs => hs.tracked.orderly) fun queue? => ?_
  cases queue? with
  | none => exact triple_pure fun s hs => ⟨hs.1, fun h => by cases h⟩
  | some queue =>
    have haimed := htapping.free hheld fun a => a.tag = item.2 ∧ a.channel ≠ queue
    have hended := htapping.free hheld fun a => a.tag = item.2
    have hcancel : Triple machine orderlyDiscipline stop held
        (fun s => Tapping items s ∧ Free (fun a => a.tag = item.2 ∧ a.channel ≠ queue) s)
        (do
          let _ ← rpc (.cancel queue item.2)
          pure true)
        (Returns (fun _ s => Tapping items s ∧ Free (fun a => a.tag = item.2) s) (Tapping items)) := by
      refine triple_bind (triple_rpc rfl haimed hended fun s hs hfree => ⟨hs.1, fun a ha htag => ?_⟩) ?_ ?_
      · by_cases hqueue : a.channel = queue
        · exact hfree a ha ⟨htag, hqueue⟩
        · exact hs.2 a ha ⟨htag, hqueue⟩
      · exact fun _ => triple_pure fun s hs => hs
      · exact fun _ s hs => hs.1
    refine (triple_tryExcept hcancel (fun b s hs => ⟨hs.1, fun _ => hs.2⟩) (fun _ => ?_) ?_).mono
      (fun s hs => ⟨hs.1, hs.1.aimed hitem hs.2⟩) fun _ _ hs => hs
    · exact triple_pure fun s hs => ⟨hs, fun h => by cases h⟩
    · exact fun s hs => ⟨hs, fun h => by cases h⟩

/-- A cancelled tap loses its tag. -/
theorem Tapping.forget {item : DataType × Tag} {items : List (DataType × Tag)} {s : Process}
    (h : Tapping (item :: items) s) (hfree : Free (fun a => a.tag = item.2) s) :
    Mild s (s.untrackTag item.1) ∧ Tapping items (s.untrackTag item.1) := by
  have hmild : Mild s (s.untrackTag item.1) := by
    refine untrackTag_mild fun a ha ht => ?_
    cases (h.listed item List.mem_cons_self).tag with
    | inl htag => exact hfree a ha (Option.some.inj (ht.symm.trans htag))
    | inr hnone =>
      rw [hnone] at ht
      cases ht
  refine ⟨hmild, h.tracked.mild hmild, fun other hother => ?_⟩
  exact (h.listed other (List.mem_cons_of_mem _ hother)).mild hmild

theorem forgetTap_taps (item : DataType × Tag) (items : List (DataType × Tag)) :
    Triple machine orderlyDiscipline stop held
      (fun s => Tapping (item :: items) s ∧ Free (fun a => a.tag = item.2) s)
      (write (·.untrackTag item.1)) fun _ => Tapping items := by
  refine triple_write fun s hs => ?_
  obtain ⟨hmild, htapping⟩ := hs.1.forget hs.2
  exact ⟨htapping.tracked.orderly, guar_of_mild hmild, htapping⟩

theorem resetUncertain_upholds (hheld : held ≠ []) : Upholds stop held Tracked resetUncertain := by
  have hpending : Ending (write fun s : Process => { s with durableRefreshBrokerResetPending := true }) :=
    only_write fun _ => .of_eq rfl rfl rfl rfl rfl rfl
  refine upholds_bind (hpending.upholds (tracked_stable hheld)) fun _ => ?_
  exact upholds_bind (resetDurableBroker_upholds hheld) fun _ => upholds_pure ()

theorem cancelEach_tracks (hheld : held ≠ []) (items : List (DataType × Tag)) :
    Triple machine orderlyDiscipline stop held (Tapping items) (cancelEach items) fun _ => Tracked := by
  induction items with
  | nil =>
    have hreturned : Ending (write fun s : Process => { s with pauseReturned := true }) :=
      only_write fun _ => .of_eq rfl rfl rfl rfl rfl rfl
    have hdone : Upholds stop held Tracked
        (write (fun s => { s with pauseReturned := true }) >>= fun _ => pure true) :=
      upholds_bind (hreturned.upholds (tracked_stable hheld)) fun _ => upholds_pure true
    exact hdone.mono (fun s hs => hs.tracked) fun _ _ hs => hs
  | cons item items ih =>
    refine triple_bind (cancelTap_ends hheld List.mem_cons_self) (fun cancelled => ?_)
      fun _ s hs => hs.1.tracked
    cases cancelled with
    | false =>
      have hreset : Upholds stop held Tracked (resetUncertain >>= fun _ => pure false) :=
        upholds_bind (resetUncertain_upholds hheld) fun _ => upholds_pure false
      exact hreset.mono (fun s hs => hs.1.tracked) fun _ _ hs => hs
    | true =>
      exact triple_bind ((forgetTap_taps item items).mono (fun s hs => ⟨hs.1, hs.2 rfl⟩) fun _ _ hs => hs)
        (fun _ => ih) fun _ s hs => hs.tracked

theorem cancelPartial_tracks (hheld : held ≠ []) (items : List (DataType × Tag)) :
    Triple machine orderlyDiscipline stop held (Tapping items) (cancelPartial items) fun _ => Tracked := by
  induction items with
  | nil => exact triple_pure fun s hs => hs.tracked
  | cons item items ih =>
    refine triple_bind (cancelTap_ends hheld List.mem_cons_self) (fun cancelled => ?_)
      fun _ s hs => hs.1.tracked
    have hforget : Triple machine orderlyDiscipline stop held
        (fun s => Tapping (item :: items) s ∧
          ((Except.ok cancelled : Except Failure Bool) = .ok true → Free (fun a => a.tag = item.2) s))
        (when cancelled (write (·.untrackTag item.1))) fun _ => Tapping items := by
      cases cancelled with
      | true => exact (forgetTap_taps item items).mono (fun s hs => ⟨hs.1, hs.2 rfl⟩) fun _ _ hs => hs
      | false =>
        exact triple_pure fun s hs => ⟨hs.1.tracked, fun other hother =>
          hs.1.listed other (List.mem_cons_of_mem _ hother)⟩
    refine triple_bind hforget (fun _ => ?_) fun _ s hs => hs.tracked
    exact triple_bind ih (fun _ => upholds_pure _) fun _ _ hs => hs

theorem abandonResumption_upholds (hheld : held ≠ []) :
    Upholds stop held Tracked abandonResumption := by
  have hclosed : Ending (write Process.gateClosed) :=
    only_write fun _ => .of_eq rfl rfl rfl rfl rfl rfl
  refine upholds_bind (hclosed.upholds (tracked_stable hheld)) fun _ => ?_
  refine triple_read (fun s hs => hs.orderly) fun items => ?_
  refine triple_bind ((cancelPartial_tracks hheld items).mono ?_ fun _ _ hs => hs) ?_ fun _ _ hs => hs
  · rintro s ⟨hs, rfl⟩
    exact hs.tapping
  · exact fun _ => upholds_bind (upholds_when (resetUncertain_upholds hheld)) fun _ => upholds_pure false

theorem resumeTypes_upholds (hheld : held ≠ []) (types : List DataType) :
    Upholds none held Tracked (resumeTypes types) := by
  induction types with
  | nil => exact upholds_pure ()
  | cons t types ih =>
    refine triple_read (fun s hs => hs.orderly) fun missing => ?_
    have hstart : Triple machine orderlyDiscipline none held
        (fun s => Tracked s ∧ ((s.consumerTags t).isNone && (s.queues t).isSome) = missing)
        (when missing (startTracked t)) fun _ => Tracked := by
      cases missing with
      | false => exact triple_pure fun s hs => hs.1
      | true =>
        refine (startTracked_tracks hheld t).mono (fun s hs => ⟨hs.1, ?_⟩) fun r s hs => ?_
        · exact Option.isNone_iff_eq_none.1 (Bool.and_eq_true_iff.1 hs.2).1
        · cases r with
          | ok a => exact hs
          | error e => exact hs.tracked
    exact triple_bind hstart (fun _ => ih) fun _ _ hs => hs

/-! ## Sections -/

/-- A section finds all that is live tracked, and leaves it so. -/
theorem leaving_tracked {κ : Region} {body : Lifecycle α}
    (hbody : Upholds stop (κ :: held) Tracked body) (hP : ∀ s, Tracked s → P s) {s : Process}
    (hs : Tracked s) :
    Sound machine orderlyDiscipline stop (body.ensuring leave) (fun held' s' _ => held' = held ∧ P s')
      (κ :: held) s :=
  sound_mono (hbody.leaving (fun _ _ hs _ => hs) hs) fun _ _ _ h => ⟨h.1, hP _ h.2⟩

theorem recovering_upholds {closed : α} {body : Lifecycle α}
    (hentry : ∀ s, P s → (held = [] → Tracked s) → Tracked s) (hP : ∀ s, Tracked s → P s)
    (hbody : Upholds stop (.recovering :: held) Tracked body) :
    Upholds stop held P (recovering closed body) := by
  intro s hs
  have hopens : Region.recovering ≠ .pauseLock := by decide
  refine sound_bind ⟨fun _ => ⟨hopens, fun htracked => ?_⟩, fun _ => ⟨rfl, hs⟩⟩
  exact leaving_tracked hbody hP (hentry s hs htracked)

theorem closing_upholds {body : Lifecycle α} (hbody : Upholds stop [.closing] Tracked body) :
    Upholds stop [] Orderly (closing body) := by
  intro s hs
  have hopens : Region.closing ≠ .pauseLock := by decide
  refine sound_bind ⟨fun _ => ⟨hopens, fun htracked => ?_⟩, fun h => nomatch h⟩
  exact leaving_tracked hbody (fun _ h => h.orderly) (htracked rfl)

theorem withPauseLock_upholds {body : Lifecycle α} (hbody : Upholds stop [.pauseLock] Tracked body) :
    Upholds stop [] Orderly (withPauseLock body) := by
  intro s _
  refine sound_bind ⟨rfl, fun s₁ _ hs₁ => ⟨fun htracked => ?_, fun e _ => ⟨rfl, hs₁⟩⟩⟩
  exact leaving_tracked hbody (fun _ h => h.orderly) (htracked rfl)

theorem recoverConsumers_upholds (hentry : ∀ s, P s → (held = [] → Tracked s) → Tracked s)
    (hP : ∀ s, Tracked s → P s) : Upholds none held P recoverConsumers :=
  recovering_upholds hentry hP (replaceTransport_upholds (List.cons_ne_nil _ _))

/-- At the top of a task nothing but the invariant is known. -/
theorem orderly_stable : Stable [] Orderly := ⟨fun _ hs => hs, fun _ _ _ _ hs => hs⟩

theorem recoverConsumers_top : Upholds none [] Orderly recoverConsumers :=
  recoverConsumers_upholds (fun _ _ h => h rfl) fun _ h => h.orderly

theorem recoverConsumers_nested : Upholds none held Tracked recoverConsumers :=
  recoverConsumers_upholds (fun _ h _ => h) fun _ h => h

/-! ## The tasks -/

theorem recoverEach_upholds (types : List DataType) : Upholds none [] Orderly (recoverEach types) := by
  induction types with
  | nil => exact upholds_pure true
  | cons t types ih =>
    have hrecover : Upholds none [] Orderly (recoverDataType t) :=
      recovering_upholds (fun _ _ h => h rfl) (fun _ h => h.orderly)
        (replaceConsumer_upholds (List.cons_ne_nil _ _) t)
    exact upholds_bind hrecover fun _ => upholds_bind ih fun _ => upholds_pure _

theorem recoverParkedMarkers_upholds : Upholds none [] Orderly recoverParkedMarkers := by
  have hheld : [Region.recovering] ≠ [] := List.cons_ne_nil _ _
  refine upholds_bind ((read_ending _).upholds orderly_stable) fun pending => ?_
  refine upholds_bind ((read_ending _).upholds orderly_stable) fun shutdown => ?_
  split
  · exact upholds_pure ()
  · refine recovering_upholds (fun _ _ h => h rfl) (fun _ h => h.orderly) ?_
    refine upholds_bind ((read_ending _).upholds (tracked_stable hheld)) fun connection => ?_
    split
    · exact recoverConsumers_nested
    · exact resubscribeAllParked_upholds hheld pending

theorem checkStuck_upholds (clock : Clock) : Upholds none [] Orderly (checkStuck clock) := by
  have hread : ∀ {ρ : Type} (f : Process → ρ), Upholds none [] Orderly (read f) :=
    fun f => (read_ending f).upholds orderly_stable
  have hlost : Ending (wait .lostConsumerTypes) := only_wait trivial
  refine upholds_bind (hlost.upholds orderly_stable) fun lost => ?_
  split
  · exact upholds_bind (recoverEach_upholds _) fun _ => upholds_when recoverConsumers_top
  · refine upholds_bind (hread _) fun dead => ?_
    split
    · exact recoverConsumers_top
    · exact upholds_when (upholds_bind (hread _) fun _ => upholds_when recoverConsumers_top)

theorem queueCheck_upholds : Upholds none [] Orderly queueCheck := by
  have hsleep : Ending (wait .sleep) := only_wait trivial
  refine upholds_tryExcept (upholds_bind (hsleep.upholds orderly_stable) fun clock => ?_) (upholds_pure ())
  refine upholds_bind ((read_ending _).upholds orderly_stable) fun opened => upholds_when ?_
  refine upholds_bind ((read_ending _).upholds orderly_stable) fun failed => ?_
  split
  · have hreset : Upholds none [] Orderly (closing resetDurableBroker) :=
      closing_upholds (resetDurableBroker_upholds (List.cons_ne_nil _ _))
    exact upholds_bind hreset fun _ => upholds_when recoverConsumers_top
  · exact upholds_bind recoverParkedMarkers_upholds fun _ => upholds_when (checkStuck_upholds clock)

theorem replaySignals_ending (signals : List (DataType × String)) : Ending (replaySignals signals) := by
  induction signals with
  | nil => trivial
  | cons signal signals ih =>
    refine only_bind (read_ending _) fun admission => ?_
    split
    · trivial
    · exact only_bind (only_wait trivial) fun _ => ih

theorem replayFailedSignals_ending : Ending replayFailedSignals := by
  have hclosed : Ending (write Process.gateClosed) :=
    only_write fun _ => .of_eq rfl rfl rfl rfl rfl rfl
  refine tryExcept_only ?_ (only_bind hclosed fun _ => trivial)
  refine only_bind (only_wait trivial) fun _ => only_bind (read_ending _) fun signals => ?_
  refine only_bind (replaySignals_ending signals) fun _ => ?_
  exact only_bind (only_wait trivial) fun _ => trivial

theorem resumeConsumers_upholds (hheld : held ≠ []) : Upholds none held Tracked resumeConsumers := by
  have hread : ∀ {ρ : Type} (f : Process → ρ), Upholds none held Tracked (read f) :=
    fun f => (read_ending f).upholds (tracked_stable hheld)
  have hresubscribe : Upholds none held Tracked resubscribe := by
    refine upholds_bind (hread _) fun attached => ?_
    split
    · exact upholds_bind (hread _) fun types => resumeTypes_upholds hheld types
    · exact recoverConsumers_nested
  exact upholds_bind hresubscribe fun _ => upholds_bind (hread _) fun _ => upholds_when (upholds_raise _)

theorem reopenDelivery_upholds (hheld : held ≠ []) : Upholds none held Tracked reopenDelivery := by
  have hwrite : ∀ {f : Process → Process}, (∀ s, Mild s (f s)) → Upholds none held Tracked (write f) :=
    fun hf => Ending.upholds (only_write hf) (tracked_stable hheld)
  refine upholds_bind (hwrite fun _ => .of_eq rfl rfl rfl rfl rfl rfl) fun _ => ?_
  refine upholds_tryExcept (upholds_bind (resumeConsumers_upholds hheld) fun _ => ?_)
    (abandonResumption_upholds hheld)
  exact upholds_bind (hwrite fun _ => .of_eq rfl rfl rfl rfl rfl rfl) fun _ => upholds_pure true

theorem recoveryRound_upholds : Upholds none [] Orderly recoveryRound := by
  have hheld : [Region.pauseLock] ≠ [] := List.cons_ne_nil _ _
  have htracked := tracked_stable hheld
  have hprobe : Ending (wait .probeDurableSchema) := only_wait trivial
  have hclosed : Ending (write Process.gateClosed) :=
    only_write fun _ => .of_eq rfl rfl rfl rfl rfl rfl
  have hreset : Upholds none [.pauseLock] Tracked resetIfPending := by
    refine upholds_bind ((read_ending _).upholds htracked) fun pending => ?_
    split
    · exact resetDurableBroker_upholds hheld
    · exact upholds_pure true
  refine upholds_tryExcept ?_ (upholds_pure ())
  refine upholds_bind ((read_ending _).upholds orderly_stable) fun due => upholds_when ?_
  refine upholds_bind ?_ fun _ => upholds_pure ()
  refine upholds_bind ((read_ending _).upholds orderly_stable) fun possible => ?_
  split
  · exact upholds_pure false
  · refine withPauseLock_upholds (upholds_bind hreset fun reset => ?_)
    split
    · exact upholds_pure false
    · refine upholds_bind (hprobe.upholds htracked) fun schema => ?_
      split
      · exact upholds_bind (hclosed.upholds htracked) fun _ => upholds_pure false
      · refine upholds_bind (replayFailedSignals_ending.upholds htracked) fun replayed => ?_
        split
        · exact upholds_pure false
        · exact reopenDelivery_upholds hheld

theorem pauseDurableConsumers_upholds (t : DataType) (version : String) :
    Upholds stop [] Orderly (pauseDurableConsumers t version) := by
  have hheld : [Region.pausing, .pauseLock] ≠ [] := List.cons_ne_nil _ _
  have htaps : Upholds stop [.pausing, .pauseLock] Tracked (read Process.tagItems >>= cancelEach) := by
    refine triple_read (fun s hs => hs.orderly) fun items => ?_
    refine (cancelEach_tracks hheld items).mono ?_ fun _ _ hs => hs
    rintro s ⟨hs, rfl⟩
    exact hs.tapping
  refine withPauseLock_upholds fun s hs => ?_
  have hmild : Mild s (s.pause t version) := .of_eq rfl rfl rfl rfl rfl rfl
  have hpaused := hs.mild hmild
  have hopens : Region.pausing ≠ .pauseLock := by decide
  refine sound_bind (sound_write hpaused.orderly (guar_of_mild hmild) ?_)
  refine sound_bind ⟨fun _ => ⟨hopens, fun _ => ?_⟩, fun h => nomatch h⟩
  exact leaving_tracked htaps (fun _ h => h) hpaused

/-! ### The completion timers -/

/-- A timer's tag, and the queue its subscription is on. -/
structure Aimed (queue : Channel) (tag : Tag) (s : Process) : Prop where
  orderly : Orderly s
  issued : tag < s.broker.issued
  queue : Free (fun a => a.tag = tag ∧ a.channel ≠ queue) s

/-- The subscription of the tag has ended. -/
structure Spent (tag : Tag) (s : Process) : Prop where
  orderly : Orderly s
  issued : tag < s.broker.issued
  ended : Free (fun a => a.tag = tag) s

/-- Whatever is said of the subscriptions of an old tag stays so. -/
theorem Later.free {kind : Subscription → Prop} {tag : Tag} {s s' : Process} (hlater : Later s s')
    (hissued : tag < s.broker.issued) (hkind : ∀ a, kind a → a.tag = tag) (h : Free kind s) :
    Free kind s' := by
  intro a ha hends
  cases hlater.fresh a ha with
  | inl hold => exact h a hold hends
  | inr hnew =>
    rw [hkind a hends] at hnew
    exact absurd hissued (Nat.not_lt.2 hnew)

theorem aimed_stable (queue : Channel) (tag : Tag) : Stable [] (Aimed queue tag) where
  orderly _ hs := hs.orderly
  rely _ _ hs hrely horderly :=
    ⟨horderly, hs.issued.trans_le hrely.1.issued, hrely.1.free hs.issued (fun _ h => h.1) hs.queue⟩

theorem spent_stable (tag : Tag) : Stable [] (Spent tag) where
  orderly _ hs := hs.orderly
  rely _ _ hs hrely horderly :=
    ⟨horderly, hs.issued.trans_le hrely.1.issued, hrely.1.free hs.issued (fun _ h => h) hs.ended⟩

theorem cancelConsumer_upholds (t : DataType) (queue : Channel) (tag : Tag) :
    Triple machine orderlyDiscipline stop [] (Aimed queue tag) (cancelConsumer t queue tag)
      fun _ => Orderly := by
  have hcancel : Triple machine orderlyDiscipline stop [] (Aimed queue tag) (rpc (.cancel queue tag))
      (Returns (fun _ => Spent tag) (Aimed queue tag)) := by
    refine triple_rpc rfl (aimed_stable queue tag) (spent_stable tag) fun s hs hfree => ?_
    refine ⟨hs.orderly, hs.issued, fun a ha htag => ?_⟩
    by_cases hqueue : a.channel = queue
    · exact hfree a ha ⟨htag, hqueue⟩
    · exact hs.queue a ha ⟨htag, hqueue⟩
  refine triple_bind hcancel (fun _ => ?_) fun _ s hs => hs.orderly
  have hforget : Triple machine orderlyDiscipline stop [] (Spent tag)
      (write fun s => if s.consumerTags t = some tag then s.untrackTag t else s) fun _ => Orderly := by
    refine triple_write fun s hs => ?_
    have hmild : Mild s (if s.consumerTags t = some tag then s.untrackTag t else s) := by
      split
      · next htag =>
        refine untrackTag_mild fun a ha ht => hs.ended a ha ?_
        exact Option.some.inj (ht.symm.trans htag)
      · exact .refl s
    have horderly := hs.orderly.mild hmild
    exact ⟨horderly, guar_of_mild hmild, horderly⟩
  have hclose : Upholds stop [] Orderly (closing closeRecoveryBroker) :=
    closing_upholds (closeRecoveryBroker_upholds (List.cons_ne_nil _ _))
  refine triple_bind hforget (fun _ => ?_) fun _ s hs => hs
  refine upholds_bind ((read_ending _).upholds orderly_stable) fun idle => upholds_when ?_
  exact upholds_bind hclose fun _ => upholds_pure ()

theorem cancelAfterDelay_upholds (t : DataType) (queue : Channel) (tag : Tag) :
    Triple machine orderlyDiscipline stop [] (Aimed queue tag) (cancelAfterDelay t queue tag)
      fun _ => Orderly := by
  have hcancelled : Ending cancellationFailed := cancellationFailed_ending
  refine triple_read (fun s hs => hs.orderly) fun current => ?_
  refine triple_when ?_ fun s hs => hs.1.orderly
  refine triple_tryCatch ((cancelConsumer_upholds t queue tag).mono (fun s hs => hs.1) fun _ _ hs => hs)
    (fun _ _ hs => hs) fun e => ?_
  cases e with
  | cancelled => exact upholds_bind (hcancelled.upholds orderly_stable) fun _ => upholds_raise _
  | exception name => exact hcancelled.upholds orderly_stable

theorem scheduleConsumerCancellation_upholds (t : DataType) :
    Upholds stop [] Orderly (scheduleConsumerCancellation t) := by
  refine triple_read (fun s hs => hs) fun queue? => ?_
  cases queue? with
  | none => exact triple_pure fun s hs => hs.1
  | some queue =>
    refine triple_read (fun s hs => hs.1) fun tag? => ?_
    have hsleep : Ending (wait .sleep) := only_wait trivial
    cases tag? with
    | none =>
      have hwaits : Upholds stop [] Orderly (wait .sleep >>= fun _ => pure ()) :=
        upholds_bind (hsleep.upholds orderly_stable) fun _ => upholds_pure ()
      exact hwaits.mono (fun s hs => hs.1.1) fun _ _ hs => hs
    | some tag =>
      have haim : ∀ s, (Orderly s ∧ s.queues t = some queue) ∧ s.consumerTags t = some tag →
          Aimed queue tag s := by
        rintro s ⟨⟨hs, hqueue⟩, htag⟩
        refine ⟨hs, hs.tags t tag htag, fun a ha hends => ?_⟩
        obtain ⟨rfl, hchannel⟩ := hends
        have hown := hs.own a ha t htag
        subst hown
        have hqueued := hs.queued a ha htag
        rw [hqueue] at hqueued
        exact hchannel (Option.some.inj hqueued).symm
      refine triple_bind ((hsleep.upholds (aimed_stable queue tag)).mono haim fun _ _ hs => hs)
        (fun _ => cancelAfterDelay_upholds t queue tag) fun _ s hs => hs.orderly

end

theorem job_orderly (job : Job) (s : Process) (hs : Orderly s) :
    Sound machine orderlyDiscipline (machine.interrupt job) (machine.program job)
      (fun _ _ _ => True) [] s := by
  have hdone : ∀ {p : Lifecycle Unit}, Upholds (machine.interrupt job) [] Orderly p →
      Sound machine orderlyDiscipline (machine.interrupt job) p (fun _ _ _ => True) [] s :=
    fun h => sound_mono (h s hs) fun _ _ _ _ => trivial
  cases job with
  | queueCheck => exact hdone queueCheck_upholds
  | recoveryRound => exact hdone recoveryRound_upholds
  | pause t version =>
    exact hdone (upholds_bind (pauseDurableConsumers_upholds t version) fun _ => upholds_pure ())
  | completionTimer t => exact hdone (scheduleConsumerCancellation_upholds t)

/-! ## Runs -/

/-- A process before its first task, with all that is live tracked. -/
structure Subscribed (l : Loader) : Prop where
  tasks : l.tasks = []
  tracked : Tracked l.shared

theorem Subscribed.kept {l : Loader} (h : Subscribed l) : l.Kept machine orderlyDiscipline := by
  have hidle : ∀ i, l.sections i = [] := fun i => by simp [EventLoop.sections, h.tasks]
  refine ⟨h.tracked.orderly, ⟨fun i j hi => absurd (hidle i) hi, fun _ => h.tracked⟩, ?_⟩
  intro i task hi
  simp [h.tasks] at hi

def liveTypes (l : Loader) : List DataType := l.shared.broker.subscriptions.map Subscription.dataType

/-- If no two tasks are in their sections at once and a `consume` that the broker acted on
    is answered, each type has one live subscription at most, and the loader can end it. -/
theorem one_subscription_each {l l' : Loader} (hstart : Subscribed l)
    (hrun : EventLoop.Run machine (EventLoop.Admits machine Alone Confirmed) l l') :
    (liveTypes l').Nodup ∧ ∀ a ∈ l'.shared.broker.subscriptions, l'.shared.Holds a := by
  have hkept := EventLoop.run_kept orderlyDiscipline_lawful job_orderly hstart.kept hrun
  exact ⟨Orderly.single hkept.inv, Orderly.holds hkept.inv⟩

theorem attached_subscribed : Subscribed ⟨attached, []⟩ := by
  have htag : ∀ t tag, attached.consumerTags t = some tag → t = .labels ∧ tag = 3 := by
    intro t tag ht
    simp only [attached] at ht
    split at ht <;> cases ht
    exact ⟨‹_›, rfl⟩
  refine ⟨rfl, ⟨?_, ?_, ?_, ?_, ?_, ?_, ?_⟩, ?_, ?_⟩
  · decide
  · exact List.forall_mem_singleton.2 (.inl rfl)
  · exact List.forall_mem_singleton.2 (by decide)
  · exact List.forall_mem_singleton.2 (by decide)
  · intro t tag ht
    rw [(htag t tag ht).2]
    decide
  · exact List.forall_mem_singleton.2 fun t ht => (htag t _ ht).1
  · exact List.forall_mem_singleton.2 fun _ => rfl
  · exact List.forall_mem_singleton.2 ⟨rfl, rfl⟩
  · intro t channel ht
    simp only [attached] at ht
    split at ht <;> cases ht
    rfl

/-- The parked marker of the artists is picked up, then the file of the labels completes. -/
def markerThenTimer : List (LoopEvent Job Choice Happening) :=
  .start .queueCheck :: answers 0 15 ++ .start (.completionTimer .labels) :: answers 1 3

theorem one_subscription_each_marker :
    ∃ l' : Loader, EventLoop.Run machine (EventLoop.Admits machine Alone Confirmed)
        ⟨attached, []⟩ l' ∧ liveTypes l' = [.artists] ∧
      (liveTypes l').Nodup ∧ ∀ a ∈ l'.shared.broker.subscriptions, l'.shared.Holds a := by
  have heval : (runWhile (EventLoop.step machine) (EventLoop.Admits machine Alone Confirmed)
      (⟨attached, []⟩ : Loader) markerThenTimer).map liveTypes = some [.artists] := by
    decide +kernel
  obtain ⟨l', hl', hlive⟩ := Option.map_eq_some_iff.1 heval
  have hrun := runOf_of_runWhile _ _ hl'
  exact ⟨l', hrun, hlive, one_subscription_each attached_subscribed hrun⟩

/-! ### The second subscription -/

/-- As `smoothly`, but the answer does not come back. -/
def unanswered : Choice := { smoothly with delivered := false }

/-- The consumer of a parked marker is registered and its answer lost; the next check
    takes the type for missing. -/
def lostAnswer : List (LoopEvent Job Choice Happening) :=
  .start .queueCheck :: answers 0 14 ++ .answer 0 unanswered :: .start .queueCheck :: answers 1 15

/-- The labels are found lost. -/
def labelsLost : Choice := { smoothly with clock := ⟨true, false⟩, lost := {.labels} }

/-- A pause takes the tap of the labels while the checker is closing their channel, and
    the resumption and the checker both subscribe. -/
def resumedTwice : List (LoopEvent Job Choice Happening) :=
  .start .queueCheck :: List.replicate 2 (.answer 0 labelsLost) ++
    .start (.pause .labels "20240101") :: answers 1 3 ++ answers 0 2 ++
    .start .recoveryRound :: answers 2 13 ++ answers 0 8

theorem second_subscription :
    (∃ l' : Loader, EventLoop.Run machine (EventLoop.Admits machine Alone fun _ _ _ => True)
        ⟨attached, []⟩ l' ∧ ¬(liveTypes l').Nodup) ∧
      ∃ l' : Loader, EventLoop.Run machine (EventLoop.Admits machine (fun _ _ => True) Confirmed)
        ⟨{ attached with completedFiles := ∅ }, []⟩ l' ∧ ¬(liveTypes l').Nodup := by
  have hlost : (runWhile (EventLoop.step machine) (EventLoop.Admits machine Alone fun _ _ _ => True)
      (⟨attached, []⟩ : Loader) lostAnswer).map liveTypes = some [.artists, .artists, .labels] := by
    decide +kernel
  have htwice : (runWhile (EventLoop.step machine)
      (EventLoop.Admits machine (fun _ _ => True) Confirmed)
      (⟨{ attached with completedFiles := ∅ }, []⟩ : Loader) resumedTwice).map liveTypes =
      some [.labels, .labels] := by
    decide +kernel
  obtain ⟨l₁, hl₁, hlive₁⟩ := Option.map_eq_some_iff.1 hlost
  obtain ⟨l₂, hl₂, hlive₂⟩ := Option.map_eq_some_iff.1 htwice
  refine ⟨⟨l₁, runOf_of_runWhile _ _ hl₁, ?_⟩, ⟨l₂, runOf_of_runWhile _ _ hl₂, ?_⟩⟩
  · rw [hlive₁]
    decide
  · rw [hlive₂]
    decide

end Tableinator.Consumers
