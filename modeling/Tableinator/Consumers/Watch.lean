import Tableinator.Consumers.Recovery

/-! # Lost consumers

The broker can end one consumer and leave the rest.  The checker notices by the tags that
the client of a delivery channel knows: a tag that is missing on two consecutive looks is
lost, since the client restores what it can by itself, and only the types that are lost
move to new channels. -/

namespace Tableinator.Consumers

open Effect Effect.Program Effect.Routine

/-! ## A look -/

/-- What a look makes of one type. -/
inductive Verdict where
  | present
  | closed
  | missing (tag : Tag)

/-- `delivery_channels.get(data_type, active_channel)`. -/
def Process.channelOf (s : Process) (t : DataType) : Option Channel :=
  (s.deliveryChannels t).or s.activeChannel

/-- The turn of one type.  `consumers` are the tags its channel knows; `none` when the
    channel does not answer in time. -/
def judge (watched : Bool) (s : Process) (t : DataType) (consumers : Option (List Tag)) : Verdict :=
  match s.consumerTags t, s.channelOf t with
  | some tag, some channel =>
    if s.isClosed channel then .closed
    -- Types whose file completed are cancelled on purpose.
    else if !watched then .present
    else if consumers.any (tag ∈ ·) then .present
    else .missing tag
  | _, _ => .present

/-- Reported: closed at once, missing only when it was missing before. -/
def Verdict.lost (suspected : List Tag) : Verdict → Bool
  | .present => false
  | .closed => true
  | .missing tag => tag ∈ suspected

def Verdict.suspect : Verdict → Option Tag
  | .missing tag => some tag
  | _ => none

/-- `lost_consumer_types`, from `suspected_lost_tags` to its new value.  Each type is judged
    on the process as it stands at its `turn`. -/
def lostConsumerTypes (s : Process) (turn : DataType → Process)
    (consumers : DataType → Option (List Tag)) (suspected : List Tag) :
    Finset DataType × List Tag :=
  if !s.tagged || s.shutdownRequested then (∅, [])
  else
    let verdict t := judge ((s.consumerTags t).isSome && t ∉ s.completedFiles) (turn t) t (consumers t)
    (dataTypes.filter fun t => (verdict t).lost suspected,
      typeOrder.filterMap fun t => (verdict t).suspect)

/-! ## Replacing one consumer -/

/-- Connected, with a tracked consumer on a channel of its own for every file that is not
    complete; the broker may have ended any of them. -/
structure Attending (s : Process) : Prop where
  gate : s.gateOpen = true
  runs : s.shutdownRequested = false
  sure : s.consumerCancellationFailed = false
  connection : ∃ connection ∈ s.broker.connections, s.activeConnection = some connection
  settled : s.typesAwaitingMarker = []
  tracked : ∀ t, t ∉ s.completedFiles → (s.consumerTags t).isSome = true
  placed : ∀ t, (s.consumerTags t).isSome = true → (s.deliveryChannels t).isSome = true
  queued : ∀ t, (s.consumerTags t).isSome = true → s.queues t = s.deliveryChannels t
  linked : Linked s
  distinct : Distinct s
  tags : ∀ t tag, s.consumerTags t = some tag → tag < s.broker.issued
  issued : ∀ a ∈ s.broker.subscriptions, a.tag < s.broker.issued
  own : ∀ a ∈ s.broker.subscriptions, ∀ t, s.consumerTags t = some a.tag → a.dataType = t

/-- The consumer of the type is what it was, alive or not. -/
structure Spared (t : DataType) (s s' : Process) : Prop where
  tag : s'.consumerTags t = s.consumerTags t
  channel : s'.deliveryChannels t = s.deliveryChannels t
  queue : s'.queues t = s.queues t
  connection : s'.activeConnection = s.activeConnection
  opened : ∀ channel, s.deliveryChannels t = some channel →
    (channel ∈ s'.broker.channels ↔ channel ∈ s.broker.channels)
  live : ∀ tag channel, s.consumerTags t = some tag → s.deliveryChannels t = some channel →
    (⟨tag, channel, t⟩ ∈ s'.broker.subscriptions ↔ ⟨tag, channel, t⟩ ∈ s.broker.subscriptions)

section

variable {t t' : DataType} {s s₁ s' : Process} {connection : Connection} {channel : Channel}

theorem Spared.refl (t : DataType) (s : Process) : Spared t s s :=
  ⟨rfl, rfl, rfl, rfl, fun _ _ => Iff.rfl, fun _ _ _ _ => Iff.rfl⟩

theorem Spared.trans (h : Spared t s s₁) (h' : Spared t s₁ s') : Spared t s s' where
  tag := h'.tag.trans h.tag
  channel := h'.channel.trans h.channel
  queue := h'.queue.trans h.queue
  connection := h'.connection.trans h.connection
  opened c hc := (h'.opened c (h.channel.trans hc)).trans (h.opened c hc)
  live tag c htag hc :=
    (h'.live tag c (h.tag.trans htag) (h.channel.trans hc)).trans (h.live tag c htag hc)

theorem Served.spared (h : Served t s) (hspared : Spared t s s') : Served t s' := by
  obtain ⟨tag, channel, htag, hdelivery, hqueue, hopen, hlive, hconnection⟩ := h
  exact ⟨tag, channel, hspared.tag.trans htag, hspared.channel.trans hdelivery,
    hspared.queue.trans hqueue, (hspared.opened channel hdelivery).2 hopen,
    (hspared.live tag channel htag hdelivery).2 hlive, hspared.connection.trans hconnection⟩

/-- The old channel of the type closed, its tag popped and a new consumer started. -/
def Process.replaced (s : Process) (t : DataType) (channel : Channel) (connection : Connection) :
    Process :=
  (({ s.setDeliveryChannel t none with
    broker := s.broker.endChannel channel } : Process).untrackTag t).started t connection

theorem replaced_tag : (s.replaced t channel connection).consumerTags t =
    some (s.broker.issued + 1) := Process.setTag_self _ _

theorem replaced_tag_of_ne (hne : t' ≠ t) :
    (s.replaced t channel connection).consumerTags t' = s.consumerTags t' :=
  (Process.setTag_of_ne _ _ hne).trans (Process.setTag_of_ne _ _ hne)

theorem replaced_channel : (s.replaced t channel connection).deliveryChannels t =
    some ⟨connection, s.broker.issued⟩ := Process.setDeliveryChannel_self _ _

theorem replaced_channel_of_ne (hne : t' ≠ t) :
    (s.replaced t channel connection).deliveryChannels t' = s.deliveryChannels t' :=
  (Process.setDeliveryChannel_of_ne _ _ hne).trans (Process.setDeliveryChannel_of_ne _ _ hne)

theorem replaced_queue : (s.replaced t channel connection).queues t =
    some ⟨connection, s.broker.issued⟩ := Process.setQueue_self _ _

theorem replaced_queue_of_ne (hne : t' ≠ t) :
    (s.replaced t channel connection).queues t' = s.queues t' := Process.setQueue_of_ne _ _ hne

theorem mem_replaced_subscriptions {a : Subscription} :
    a ∈ (s.replaced t channel connection).broker.subscriptions ↔
      a = ⟨s.broker.issued + 1, ⟨connection, s.broker.issued⟩, t⟩ ∨
        a ∈ s.broker.subscriptions ∧ a.channel ≠ channel := by
  show a ∈ (⟨s.broker.issued + 1, ⟨connection, s.broker.issued⟩, t⟩ : Subscription) ::
    s.broker.subscriptions.filter (fun a => a.channel ≠ channel) ↔ _
  simp

theorem mem_replaced_channels {c : Channel} :
    c ∈ (s.replaced t channel connection).broker.channels ↔
      c = ⟨connection, s.broker.issued⟩ ∨ c ∈ s.broker.channels ∧ c ≠ channel := by
  show c ∈ (⟨connection, s.broker.issued⟩ : Channel) :: s.broker.channels.filter (· ≠ channel) ↔ _
  simp

theorem Attending.spares_others (h : Attending s) (hchannel : s.deliveryChannels t = some channel)
    (hne : t' ≠ t) : Spared t' s (s.replaced t channel connection) where
  tag := replaced_tag_of_ne hne
  channel := replaced_channel_of_ne hne
  queue := replaced_queue_of_ne hne
  connection := rfl
  opened c hc := by
    have hapart : c ≠ channel := fun heq => hne (h.distinct.apart t' t c hc (heq ▸ hchannel))
    have hold : c ≠ ⟨connection, s.broker.issued⟩ := by
      rintro rfl
      exact absurd (h.distinct.numbers t' _ hc) (lt_irrefl _)
    simp [mem_replaced_channels, hapart, hold]
  live tag c htag hc := by
    have hapart : c ≠ channel := fun heq => hne (h.distinct.apart t' t c hc (heq ▸ hchannel))
    have hold : tag ≠ s.broker.issued + 1 :=
      fun heq => absurd (h.tags t' tag htag) (not_lt.2 (heq ▸ Nat.le_succ _))
    simp [mem_replaced_subscriptions, hapart, hold]

theorem served_replaced (hconnection : s.activeConnection = some connection) :
    Served t (s.replaced t channel connection) := by
  have hclosed : (({ s.setDeliveryChannel t none with
      broker := s.broker.endChannel channel } : Process).untrackTag t).activeConnection =
        some connection := hconnection
  exact served_started hclosed

/-- Replacing a tracked consumer leaves the loader attending. -/
theorem Attending.replaced (h : Attending s) (htagged : (s.consumerTags t).isSome = true)
    (hconnection : s.activeConnection = some connection) :
    Attending (s.replaced t channel connection) := by
  have hissued : s.broker.issued < (s.replaced t channel connection).broker.issued :=
    Nat.lt_add_of_pos_right (by decide : 0 < 2)
  have htags : ∀ t', ((s.replaced t channel connection).consumerTags t').isSome =
      (s.consumerTags t').isSome := by
    intro t'
    by_cases heq : t' = t
    · rw [heq, replaced_tag, htagged]
      rfl
    · rw [replaced_tag_of_ne heq]
  have hdropped : ∀ t' c, (s.setDeliveryChannel t none).deliveryChannels t' = some c →
      s.deliveryChannels t' = some c := by
    intro t' c hc
    by_cases heq : t' = t
    · rw [heq, s.setDeliveryChannel_self] at hc
      cases hc
    · rwa [s.setDeliveryChannel_of_ne _ heq] at hc
  have hclosed : Distinct (({ s.setDeliveryChannel t none with
      broker := s.broker.endChannel channel } : Process).untrackTag t) :=
    h.distinct.dropped hdropped le_rfl
  -- both fresh numbers are above all that were issued, so nothing in use is taken twice
  refine ⟨h.gate, h.runs, h.sure, h.connection, ?_, ?_, ?_, ?_, ?_, hclosed.started, ?_, ?_, ?_⟩
  · rw [← h.settled]
    refine List.filter_congr fun t' _ => ?_
    rw [← Option.not_isSome, htags, Option.not_isSome]
    rfl
  · intro t' ht'
    rw [htags]
    exact h.tracked t' ht'
  · intro t' ht'
    by_cases heq : t' = t
    · rw [heq, replaced_channel]
      rfl
    · rw [replaced_channel_of_ne heq]
      rw [htags] at ht'
      exact h.placed t' ht'
  · intro t' ht'
    by_cases heq : t' = t
    · rw [heq, replaced_queue, replaced_channel]
    · rw [replaced_queue_of_ne heq, replaced_channel_of_ne heq]
      rw [htags] at ht'
      exact h.queued t' ht'
  · intro t' c hc
    by_cases heq : t' = t
    · rw [heq, replaced_channel] at hc
      cases hc
      exact hconnection
    · rw [replaced_channel_of_ne heq] at hc
      exact h.linked t' c hc
  · intro t' tag ht'
    by_cases heq : t' = t
    · rw [heq, replaced_tag] at ht'
      cases ht'
      exact Nat.lt_succ_self _
    · rw [replaced_tag_of_ne heq] at ht'
      exact (h.tags t' tag ht').trans hissued
  · intro a ha
    rcases mem_replaced_subscriptions.1 ha with rfl | ⟨hold, _⟩
    · exact Nat.lt_succ_self _
    · exact (h.issued a hold).trans hissued
  · intro a ha t' ht'
    rcases mem_replaced_subscriptions.1 ha with rfl | ⟨hold, _⟩
    · by_contra hne
      rw [replaced_tag_of_ne (Ne.symm hne)] at ht'
      exact absurd (h.tags t' _ ht') (not_lt.2 (Nat.le_succ _))
    · by_cases heq : t' = t
      · rw [heq, replaced_tag] at ht'
        have hlt := h.issued a hold
        rw [← Option.some.inj ht'] at hlt
        exact absurd hlt (not_lt.2 (Nat.le_succ _))
      · rw [replaced_tag_of_ne heq] at ht'
        exact h.own a hold t' ht'

/-! ## A round with its look -/

/-- What the checker does about the types that are lost. -/
structure Renewed (lost : Finset DataType) (s s' : Process) : Prop where
  attending : Attending s'
  completed : s'.completedFiles = s.completedFiles
  served : ∀ t ∈ lost, Served t s'
  spared : ∀ t, t ∉ lost → Spared t s s'

theorem Attending.renewed_none (h : Attending s) : Renewed ∅ s s :=
  ⟨h, rfl, fun t hmem => absurd hmem (Finset.notMem_empty t), fun t _ => .refl t s⟩

theorem Renewed.trans {lost lost' : Finset DataType} (h : Renewed lost s s₁)
    (h' : Renewed lost' s₁ s') : Renewed (lost ∪ lost') s s' where
  attending := h'.attending
  completed := h'.completed.trans h.completed
  served t hmem := by
    by_cases hin : t ∈ lost'
    · exact h'.served t hin
    · have hfirst := (Finset.mem_union.1 hmem).resolve_right hin
      exact (h.served t hfirst).spared (h'.spared t hin)
  spared t hmem := by
    rw [Finset.mem_union, not_or] at hmem
    exact (h.spared t hmem.1).trans (h'.spared t hmem.2)

variable {reported : Finset DataType → Prop} {held : List Region}

theorem recoverDataType_attends (h : Attending s) (htagged : (s.consumerTags t).isSome = true) :
    Attains False reported held s (recoverDataType t) fun recovered s' =>
      recovered = true ∧ Renewed {t} s s' := by
  obtain ⟨tag, htag⟩ := Option.isSome_iff_exists.1 htagged
  obtain ⟨channel, hchannel⟩ := Option.isSome_iff_exists.1 (h.placed t htagged)
  obtain ⟨connection, hopen, hconnection⟩ := h.connection
  have hreplaced : Attains False reported (.recovering :: held) s (replaceConsumer t)
      fun recovered s' => recovered = true ∧ s' = s.replaced t channel connection := by
    refine attains_read hchannel (attains_write (attains_read htag ?_))
    refine attains_bind (closeOldChannel_attains channel) ?_
    rintro _ _ ⟨rfl, rfl⟩
    refine attains_write (attains_read hconnection ?_)
    refine attains_tryCatch (attains_bind (startTracked_attains hconnection hopen
      (openDelivery_of_none (s.setDeliveryChannel_self none))) ?_)
    rintro _ _ rfl
    exact attains_pure ⟨rfl, rfl⟩
  refine (attains_recovering h.gate hreplaced).mono ?_
  rintro _ _ ⟨rfl, rfl⟩
  refine ⟨rfl, h.replaced htagged hconnection, rfl, ?_, ?_⟩
  · intro t' hmem
    rw [Finset.mem_singleton.1 hmem]
    exact served_replaced hconnection
  · intro t' hmem
    exact h.spares_others hchannel fun heq => hmem (Finset.mem_singleton.2 heq)

theorem recoverEach_attends {types : List DataType} (hnodup : types.Nodup) (h : Attending s)
    (htagged : ∀ t ∈ types, (s.consumerTags t).isSome = true) :
    Attains False reported held s (recoverEach types) fun recovered s' =>
      recovered = true ∧ Renewed types.toFinset s s' := by
  induction types generalizing s with
  | nil => exact attains_pure ⟨rfl, h.renewed_none⟩
  | cons t types ih =>
    obtain ⟨hfresh, hrest⟩ := List.nodup_cons.1 hnodup
    refine attains_bind (recoverDataType_attends h (htagged t List.mem_cons_self)) ?_
    rintro _ s₁ ⟨rfl, hfirst⟩
    have htagged₁ : ∀ t' ∈ types, (s₁.consumerTags t').isSome = true := by
      intro t' hmem
      have hother : t' ∉ ({t} : Finset DataType) := fun hin =>
        hfresh (Finset.mem_singleton.1 hin ▸ hmem)
      rw [(hfirst.spared t' hother).tag]
      exact htagged t' (List.mem_cons_of_mem _ hmem)
    refine attains_bind (ih hrest hfirst.attending htagged₁) ?_
    rintro _ s₂ ⟨rfl, hothers⟩
    refine attains_pure ⟨rfl, ?_⟩
    rw [List.toFinset_cons, Finset.insert_eq]
    exact hfirst.trans hothers

theorem Attending.not_dead (h : Attending s) : s.consumersUnexpectedlyDead = false := by
  rw [Bool.eq_false_iff]
  intro hdead
  simp only [Process.consumersUnexpectedlyDead, Bool.and_eq_true, Bool.not_eq_true',
    decide_eq_true_eq] at hdead
  obtain ⟨⟨huntagged, hcard⟩, _⟩ := hdead
  have hall : typeOrder.toFinset ⊆ s.completedFiles := by
    intro t _
    by_contra hmem
    have htagged := h.tracked t hmem
    rw [tags_none huntagged t] at htagged
    cases htagged
  exact absurd (Finset.card_le_card hall) (not_le.2 hcard)

theorem checkStuck_attends {clock : Clock} {lost : Finset DataType} (h : Attending s)
    (htagged : ∀ t ∈ lost, (s.consumerTags t).isSome = true) :
    Attains False (· = lost) held s (checkStuck clock) fun _ s' => Renewed lost s s' := by
  have hlook : Attains False (· = lost) held s (wait .lostConsumerTypes) fun found s' =>
      found = lost ∧ s' = s := by
    refine attains_wait fun choice hchoice => ⟨choice.lost, s, ?_, hchoice.lost, rfl⟩
    simp [machine, perform, whenHealthy, hchoice.healthy]
  refine attains_bind hlook ?_
  rintro found s' ⟨hfound, hs'⟩
  rw [hfound, hs']
  split
  · have htypes : (typeOrder.filter (· ∈ lost)).toFinset = lost := by
      ext t
      simp [mem_typeOrder]
    have hall : ∀ t ∈ typeOrder.filter (· ∈ lost), (s.consumerTags t).isSome = true := by
      intro t hmem
      exact htagged t (of_decide_eq_true (List.mem_filter.1 hmem).2)
    refine attains_bind (recoverEach_attends (List.Nodup.filter _ (by decide)) h hall) ?_
    rintro _ s'' ⟨rfl, hrenewed⟩
    rw [htypes] at hrenewed
    exact attains_pure hrenewed
  · next hnone =>
    have hempty : lost = ∅ := not_not.1 hnone
    have hsame : Renewed lost s s := hempty ▸ h.renewed_none
    refine attains_read h.not_dead (attains_when (fun _ => ?_) fun _ => hsame)
    obtain ⟨connection, _, hconnection⟩ := h.connection
    refine attains_read (a := true) ?_ (attains_pure hsame)
    rw [hconnection]
    rfl

theorem queueCheck_attends {lost : Finset DataType} (h : Attending s)
    (htagged : ∀ t ∈ lost, (s.consumerTags t).isSome = true) :
    Attains False (· = lost) held s queueCheck fun _ s' => Renewed lost s s' := by
  have hsleep : Attains False (· = lost) held s (wait .sleep) fun clock s' =>
      s' = s ∧ clock.stuckCheck = true :=
    attains_wait fun choice hchoice => ⟨choice.clock, s, rfl, rfl, hchoice.stuckCheck⟩
  refine attains_tryCatch (attains_bind hsleep ?_)
  rintro clock s' ⟨hs', hstuck⟩
  rw [hs']
  refine attains_read h.gate (attains_when (fun _ => ?_) fun hshut => by cases hshut)
  refine attains_read h.sure ?_
  have hmarkers : Attains False (· = lost) held s recoverParkedMarkers fun _ s' => s' = s :=
    attains_read h.settled (attains_read rfl (attains_pure rfl))
  refine attains_bind hmarkers ?_
  rintro _ _ rfl
  rw [hstuck]
  exact checkStuck_attends h htagged

/-! ## Two looks -/

/-- What the delivery channels know is what the broker has: a channel with a live consumer
    answers in time, and an answer lists the live consumers of the channel. -/
structure Candid (s : Process) (consumers : DataType → Option (List Tag)) : Prop where
  answers : ∀ t, Served t s → (consumers t).isSome = true
  exact : ∀ t channel known, s.deliveryChannels t = some channel → consumers t = some known →
    ∀ tag, tag ∈ known ↔ ∃ a ∈ s.broker.subscriptions, a.tag = tag ∧ a.channel = channel

/-- A look that nothing disturbs. -/
abbrev look (s : Process) (consumers : DataType → Option (List Tag)) (suspected : List Tag) :
    Finset DataType × List Tag :=
  lostConsumerTypes s (fun _ => s) consumers suspected

variable {consumers : DataType → Option (List Tag)} {suspected : List Tag} {watched : Bool}

theorem channelOf_eq (hchannel : s.deliveryChannels t = some channel) :
    s.channelOf t = some channel := by
  rw [Process.channelOf, hchannel]
  rfl

theorem judge_served (hcandid : Candid s consumers) (hserved : Served t s) :
    judge watched s t (consumers t) = .present := by
  obtain ⟨known, hknown⟩ := Option.isSome_iff_exists.1 (hcandid.answers t hserved)
  obtain ⟨tag, channel, htag, hdelivery, _, hopen, hlive, _⟩ := hserved
  have hmem : tag ∈ known := (hcandid.exact t channel known hdelivery hknown tag).2 ⟨_, hlive, rfl, rfl⟩
  simp [judge, htag, channelOf_eq hdelivery, Process.isClosed, hopen, hknown, hmem]

theorem judge_untracked (htag : s.consumerTags t = none) (known : Option (List Tag)) :
    judge watched s t known = .present := by
  simp [judge, htag]

/-- A watched consumer that is not alive is closed or missing. -/
theorem judge_gone (h : Attending s) (hcandid : Candid s consumers) {tag : Tag}
    (htag : s.consumerTags t = some tag) (hgone : ¬Served t s) :
    judge true s t (consumers t) = .closed ∨ judge true s t (consumers t) = .missing tag := by
  have htagged : (s.consumerTags t).isSome = true := htag ▸ rfl
  obtain ⟨channel, hdelivery⟩ := Option.isSome_iff_exists.1 (h.placed t htagged)
  by_cases hopen : channel ∈ s.broker.channels
  · right
    have hmissing : (consumers t).any (tag ∈ ·) = false := by
      cases hknown : consumers t with
      | none => rfl
      | some known =>
        simp only [Option.any_some, decide_eq_false_iff_not]
        intro hmem
        obtain ⟨a, ha, hsame, hchannel⟩ := (hcandid.exact t channel known hdelivery hknown tag).1 hmem
        subst hsame hchannel
        have htype := h.own a ha t htag
        subst htype
        exact hgone ⟨a.tag, a.channel, htag, hdelivery, (h.queued _ htagged).trans hdelivery, hopen,
          ha, h.linked _ _ hdelivery⟩
    simp [judge, htag, channelOf_eq hdelivery, Process.isClosed, hopen, hmissing]
  · left
    simp [judge, htag, channelOf_eq hdelivery, Process.isClosed, hopen]

/-- Only a tracked type is reported. -/
theorem look_tagged (hlost : t ∈ (look s consumers suspected).1) :
    (s.consumerTags t).isSome = true := by
  by_contra hnone
  rw [Bool.not_eq_true, Option.isSome_eq_false_iff, Option.isNone_iff_eq_none] at hnone
  simp only [look, lostConsumerTypes] at hlost
  split at hlost
  · exact absurd hlost (Finset.notMem_empty t)
  · have hverdict := (Finset.mem_filter.1 hlost).2
    rw [judge_untracked hnone] at hverdict
    cases hverdict

/-- A consumer that is alive is not reported. -/
theorem look_spares (hcandid : Candid s consumers) (hserved : Served t s) :
    t ∉ (look s consumers suspected).1 := by
  intro hlost
  simp only [look, lostConsumerTypes] at hlost
  split at hlost
  · exact absurd hlost (Finset.notMem_empty t)
  · have hverdict := (Finset.mem_filter.1 hlost).2
    rw [judge_served hcandid hserved] at hverdict
    cases hverdict

/-- One that is not alive is suspected, and reported if it was suspected before. -/
theorem look_finds (h : Attending s) (hcandid : Candid s consumers) {tag : Tag}
    (htag : s.consumerTags t = some tag) (hfile : t ∉ s.completedFiles) (hgone : ¬Served t s) :
    t ∈ (look s consumers suspected).1 ∨
      tag ∈ (look s consumers suspected).2 ∧
        (tag ∈ suspected → t ∈ (look s consumers suspected).1) := by
  have htagged : s.tagged = true :=
    List.any_eq_true.2 ⟨t, mem_typeOrder t, by rw [htag]; rfl⟩
  have hwatched : ((s.consumerTags t).isSome && decide (t ∉ s.completedFiles)) = true := by
    rw [htag, decide_eq_true hfile]
    rfl
  simp only [look, lostConsumerTypes, htagged, h.runs, Bool.not_true, Bool.or_self,
    Bool.false_eq_true, if_false]
  rcases judge_gone h hcandid htag hgone with hclosed | hmissing
  · left
    rw [Finset.mem_filter]
    refine ⟨mem_dataTypes t, ?_⟩
    rw [hwatched, hclosed]
    rfl
  · right
    constructor
    · refine List.mem_filterMap.2 ⟨t, mem_typeOrder t, ?_⟩
      rw [hwatched, hmissing]
      rfl
    · intro hbefore
      rw [Finset.mem_filter]
      refine ⟨mem_dataTypes t, ?_⟩
      rw [hwatched, hmissing]
      exact decide_eq_true hbefore

end

/-! ## Runs -/

section

variable {l : Loader} {consumers : DataType → Option (List Tag)} {suspected : List Tag}

/-- A round of the checker, with the look it takes. -/
theorem round_renews (hquiet : l.Quiescent) (h : Attending l.shared) {answers : Nat → Choice}
    (hanswers : ∀ i, Obliging False (· = (look l.shared consumers suspected).1) (answers i)) :
    ∃ n l', runWhile (EventLoop.step machine) (EventLoop.Admits machine Alone Confirmed) l
        (.start .queueCheck :: EventLoop.answering l.tasks.length answers n) = some l' ∧
      l'.Quiescent ∧ Renewed (look l.shared consumers suspected).1 l.shared l'.shared :=
  round_finishes .queueCheck hquiet (queueCheck_attends h fun _ hlost => look_tagged hlost) hanswers

/-- From a connected loader with no marker outstanding and no cancellation uncertain, two rounds of
    the checker, each with its look, bring back every consumer the broker had ended while its file
    was not complete, and never touch one that is alive. -/
theorem lost_consumers_return (hquiet : l.Quiescent) (h : Attending l.shared)
    (hcandid : Candid l.shared consumers) (answers : Nat → Choice)
    (hanswers : ∀ i, Obliging False (· = (look l.shared consumers suspected).1) (answers i)) :
    ∃ n l₁, runWhile (EventLoop.step machine) (EventLoop.Admits machine Alone Confirmed) l
        (.start .queueCheck :: EventLoop.answering l.tasks.length answers n) = some l₁ ∧
      ∀ consumers₁, Candid l₁.shared consumers₁ → ∀ answers₁ : Nat → Choice,
        (∀ i, Obliging False (· = (look l₁.shared consumers₁
          (look l.shared consumers suspected).2).1) (answers₁ i)) →
        ∃ n₁ l₂, runWhile (EventLoop.step machine) (EventLoop.Admits machine Alone Confirmed) l₁
            (.start .queueCheck :: EventLoop.answering l₁.tasks.length answers₁ n₁) = some l₂ ∧
          Attending l₂.shared ∧ (∀ t, t ∉ l.shared.completedFiles → Served t l₂.shared) ∧
          ∀ t, Served t l.shared → Spared t l.shared l₂.shared := by
  obtain ⟨n, l₁, hrun, hquiet₁, hfirst⟩ := round_renews hquiet h hanswers
  refine ⟨n, l₁, hrun, fun consumers₁ hcandid₁ answers₁ hanswers₁ => ?_⟩
  obtain ⟨n₁, l₂, hrun₁, _, hsecond⟩ := round_renews hquiet₁ hfirst.attending hanswers₁
  -- What is alive after the first round is not reported by the second look.
  have hkept : ∀ t, Served t l₁.shared → Spared t l₁.shared l₂.shared :=
    fun t hserved => hsecond.spared t (look_spares hcandid₁ hserved)
  refine ⟨n₁, l₂, hrun₁, hsecond.attending, ?_, ?_⟩
  · intro t hfile
    by_cases hserved₁ : Served t l₁.shared
    · exact hserved₁.spared (hkept t hserved₁)
    · -- Gone before and after the first round: suspected by the first look.
      have hmissed : t ∉ (look l.shared consumers suspected).1 :=
        fun hlost => hserved₁ (hfirst.served t hlost)
      have hspared := hfirst.spared t hmissed
      have hgone : ¬Served t l.shared := fun hserved => hserved₁ (hserved.spared hspared)
      obtain ⟨tag, htag⟩ := Option.isSome_iff_exists.1 (h.tracked t hfile)
      have hsuspected := ((look_finds h hcandid htag hfile hgone).resolve_left hmissed).1
      have htag₁ : l₁.shared.consumerTags t = some tag := hspared.tag.trans htag
      have hfile₁ : t ∉ l₁.shared.completedFiles := by
        rw [hfirst.completed]
        exact hfile
      have hfound : t ∈ (look l₁.shared consumers₁ (look l.shared consumers suspected).2).1 :=
        (look_finds hfirst.attending hcandid₁ htag₁ hfile₁ hserved₁).elim id
          fun hagain => hagain.2 hsuspected
      exact hsecond.served t hfound
  · intro t hserved
    have hspared := hfirst.spared t (look_spares hcandid hserved)
    exact hspared.trans (hkept t (hserved.spared hspared))

end

/-- The tags on the delivery channel of each type. -/
def Process.knownTags (s : Process) (t : DataType) : Option (List Tag) :=
  (s.deliveryChannels t).map fun channel =>
    (s.broker.subscriptions.filter (·.channel = channel)).map Subscription.tag

theorem candid_knownTags (s : Process) : Candid s s.knownTags where
  answers t hserved := by
    obtain ⟨tag, channel, _, hdelivery, _⟩ := hserved
    rw [Process.knownTags, hdelivery]
    rfl
  exact t channel known hdelivery hknown tag := by
    rw [Process.knownTags, hdelivery] at hknown
    cases hknown
    simp [and_comm, and_assoc]

/-- Only the file of the labels is not complete, and the broker has ended its consumer. -/
def silenced : Process :=
  { attached with
    completedFiles := {.artists, .masters, .releases}
    extractionSignalled := {.artists, .masters, .releases}
    broker := ⟨[0], [⟨0, 1⟩, ⟨0, 2⟩], [], 4⟩ }

/-- The broker answers, and the look reports `lost`. -/
def reporting (lost : Finset DataType) : Choice := { obligingly with lost := lost }

theorem reporting_obliging (lost : Finset DataType) : Obliging False (· = lost) (reporting lost) :=
  ⟨rfl, rfl, rfl, rfl, rfl, rfl, fun hfalse => hfalse.elim⟩

theorem silenced_tag {t : DataType} {tag : Tag} (ht : silenced.consumerTags t = some tag) :
    t = .labels ∧ tag = 3 := by
  simp only [silenced, attached] at ht
  split at ht
  · cases ht
    exact ⟨‹_›, rfl⟩
  · cases ht

theorem silenced_channel {t : DataType} {channel : Channel}
    (ht : silenced.deliveryChannels t = some channel) : t = .labels ∧ channel = ⟨0, 2⟩ := by
  simp only [silenced, attached] at ht
  split at ht
  · cases ht
    exact ⟨‹_›, rfl⟩
  · cases ht

theorem silenced_attending : Attending silenced where
  gate := rfl
  runs := rfl
  sure := rfl
  connection := ⟨0, List.mem_cons_self, rfl⟩
  settled := by decide
  tracked t ht := by
    cases t with
    | labels => rfl
    | _ => exact absurd ht (by decide)
  placed t ht := by
    obtain ⟨tag, htag⟩ := Option.isSome_iff_exists.1 ht
    rw [(silenced_tag htag).1]
    rfl
  queued t ht := by
    obtain ⟨tag, htag⟩ := Option.isSome_iff_exists.1 ht
    rw [(silenced_tag htag).1]
    rfl
  linked t channel ht := by
    rw [(silenced_channel ht).2]
    rfl
  distinct := by
    constructor
    · intro t channel ht
      rw [(silenced_channel ht).2]
      decide
    · intro t t' channel ht ht'
      exact (silenced_channel ht).1.trans (silenced_channel ht').1.symm
  tags t tag ht := by
    rw [(silenced_tag ht).2]
    decide
  issued a ha := by cases ha
  own a ha := by cases ha

theorem lost_consumers_return_labels :
    ∃ n l₁ n₁ l₂, runWhile (EventLoop.step machine) (EventLoop.Admits machine Alone Confirmed)
        (⟨silenced, []⟩ : Loader) (.start .queueCheck ::
          EventLoop.answering 0 (fun _ => reporting (look silenced silenced.knownTags []).1) n) =
            some l₁ ∧
      runWhile (EventLoop.step machine) (EventLoop.Admits machine Alone Confirmed) l₁
        (.start .queueCheck :: EventLoop.answering l₁.tasks.length (fun _ => reporting
          (look l₁.shared l₁.shared.knownTags (look silenced silenced.knownTags []).2).1) n₁) =
            some l₂ ∧
      Served .labels l₂.shared := by
  obtain ⟨n, l₁, hrun, hthen⟩ := lost_consumers_return (l := ⟨silenced, []⟩)
    (fun task hmem => by cases hmem) silenced_attending (candid_knownTags silenced)
    (fun _ => reporting (look silenced silenced.knownTags []).1) fun _ => reporting_obliging _
  obtain ⟨n₁, l₂, hrun₁, _, hserved, _⟩ := hthen l₁.shared.knownTags (candid_knownTags l₁.shared)
    (fun _ => reporting (look l₁.shared l₁.shared.knownTags
      (look silenced silenced.knownTags []).2).1) fun _ => reporting_obliging _
  exact ⟨n, l₁, n₁, l₂, hrun, hrun₁, hserved .labels (by decide)⟩

end Tableinator.Consumers
