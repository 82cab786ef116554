import Tableinator.Consumers.Lifecycle

/-! # Subscriptions

A data type has at most one live subscription, and the loader can end each one: its tag is
tracked, or its channel or connection is still held.  Inside a section the tags and the
channels may be out of step; at its end every live subscription is tracked again and lies
on the delivery channel of its type. -/

namespace Tableinator.Consumers

open Effect Effect.Program Effect.Routine

/-! ## What holds of the subscriptions -/

/-- The loader can find the subscription: by its tag, its channel or its connection. -/
def Process.Holds (s : Process) (a : Subscription) : Prop :=
  s.consumerTags a.dataType = some a.tag ∨ a.channel ∈ s.heldChannels ∨
    s.activeConnection = some a.channel.connection

structure Orderly (s : Process) : Prop where
  single : (s.broker.subscriptions.map Subscription.dataType).Nodup
  holds : ∀ a ∈ s.broker.subscriptions, s.Holds a
  opened : ∀ a ∈ s.broker.subscriptions, a.channel ∈ s.broker.channels
  issued : ∀ a ∈ s.broker.subscriptions, a.tag < s.broker.issued
  tags : ∀ t tag, s.consumerTags t = some tag → tag < s.broker.issued
  own : ∀ a ∈ s.broker.subscriptions, ∀ t, s.consumerTags t = some a.tag → t = a.dataType
  queued : ∀ a ∈ s.broker.subscriptions, s.consumerTags a.dataType = some a.tag →
    s.queues a.dataType = some a.channel

/-- By its tag, and on the delivery channel of its type. -/
structure Process.Traces (s : Process) (a : Subscription) : Prop where
  tag : s.consumerTags a.dataType = some a.tag
  channel : s.deliveryChannels a.dataType = some a.channel

/-- The delivery channels lie on the connection. -/
def Linked (s : Process) : Prop :=
  ∀ t channel, s.deliveryChannels t = some channel → s.activeConnection = some channel.connection

/-- How a section finds and leaves the subscriptions. -/
structure Tracked (s : Process) : Prop where
  orderly : Orderly s
  traced : ∀ a ∈ s.broker.subscriptions, s.Traces a
  linked : Linked s

theorem Tracked.connection {s : Process} (h : Tracked s) {a : Subscription}
    (ha : a ∈ s.broker.subscriptions) : s.activeConnection = some a.channel.connection :=
  h.linked a.dataType a.channel (h.traced a ha).channel

theorem Tracked.mem_heldChannels {s : Process} (h : Tracked s) {a : Subscription}
    (ha : a ∈ s.broker.subscriptions) : a.channel ∈ s.heldChannels := by
  refine List.mem_append_left _ (List.mem_filterMap.2 ⟨a.dataType, ?_, (h.traced a ha).channel⟩)
  cases a.dataType <;> simp [typeOrder]

theorem Tracked.not_live {s : Process} (h : Tracked s) {t : DataType} (ht : s.consumerTags t = none)
    {a : Subscription} (ha : a ∈ s.broker.subscriptions) : a.dataType ≠ t := by
  intro heq
  have htag := (h.traced a ha).tag
  rw [heq, ht] at htag
  cases htag

/-! ## What becomes of them -/

/-- Subscriptions end, and a tag is dropped when its subscription has ended. -/
structure Mild (s s' : Process) : Prop where
  subscriptions : s'.broker.subscriptions.Sublist s.broker.subscriptions
  issued : s.broker.issued ≤ s'.broker.issued
  opened : ∀ a ∈ s'.broker.subscriptions, a.channel ∈ s.broker.channels →
    a.channel ∈ s'.broker.channels
  tags : ∀ t, s'.consumerTags t = s.consumerTags t ∨
    s'.consumerTags t = none ∧ ∀ a ∈ s'.broker.subscriptions, s.consumerTags t ≠ some a.tag
  deliveryChannels : s'.deliveryChannels = s.deliveryChannels
  queues : s'.queues = s.queues
  activeConnection : s'.activeConnection = s.activeConnection
  activeChannel : s'.activeChannel = s.activeChannel

/-- A subscription that was not there has a fresh tag. -/
structure Later (s s' : Process) : Prop where
  issued : s.broker.issued ≤ s'.broker.issued
  fresh : ∀ a ∈ s'.broker.subscriptions, a ∈ s.broker.subscriptions ∨ s.broker.issued ≤ a.tag

namespace Mild

variable {s s₁ s₂ s' : Process}

theorem of_eq (hbroker : s'.broker = s.broker) (htags : s'.consumerTags = s.consumerTags)
    (hdelivery : s'.deliveryChannels = s.deliveryChannels) (hqueues : s'.queues = s.queues)
    (hconnection : s'.activeConnection = s.activeConnection)
    (hchannel : s'.activeChannel = s.activeChannel) : Mild s s' where
  subscriptions := by rw [hbroker]
  issued := by rw [hbroker]
  opened := by
    rw [hbroker]
    exact fun _ _ h => h
  tags t := .inl (congrFun htags t)
  deliveryChannels := hdelivery
  queues := hqueues
  activeConnection := hconnection
  activeChannel := hchannel

theorem refl (s : Process) : Mild s s := of_eq rfl rfl rfl rfl rfl rfl

theorem mem (h : Mild s s') {a : Subscription} (ha : a ∈ s'.broker.subscriptions) :
    a ∈ s.broker.subscriptions :=
  h.subscriptions.subset ha

theorem trans (h : Mild s s₁) (h' : Mild s₁ s₂) : Mild s s₂ where
  subscriptions := h'.subscriptions.trans h.subscriptions
  issued := h.issued.trans h'.issued
  opened a ha hopen := h'.opened a ha (h.opened a (h'.mem ha) hopen)
  tags t := by
    cases h'.tags t with
    | inl heq' =>
      cases h.tags t with
      | inl heq => exact .inl (heq'.trans heq)
      | inr hnone => exact .inr ⟨heq'.trans hnone.1, fun a ha => hnone.2 a (h'.mem ha)⟩
    | inr hnone' =>
      cases h.tags t with
      | inl heq => exact .inr ⟨hnone'.1, fun a ha => heq ▸ hnone'.2 a ha⟩
      | inr hnone => exact .inr ⟨hnone'.1, fun a ha => hnone.2 a (h'.mem ha)⟩
  deliveryChannels := h'.deliveryChannels.trans h.deliveryChannels
  queues := h'.queues.trans h.queues
  activeConnection := h'.activeConnection.trans h.activeConnection
  activeChannel := h'.activeChannel.trans h.activeChannel

theorem later (h : Mild s s') : Later s s' := ⟨h.issued, fun _ ha => .inl (h.mem ha)⟩

/-- A tag that is tracked was, and one whose subscription lives still is. -/
theorem tag_of_some (h : Mild s s') {t : DataType} {tag : Tag} (ht : s'.consumerTags t = some tag) :
    s.consumerTags t = some tag := by
  cases h.tags t with
  | inl heq => rw [← heq, ht]
  | inr hnone =>
    rw [hnone.1] at ht
    cases ht

theorem tag_of_live (h : Mild s s') {a : Subscription} (ha : a ∈ s'.broker.subscriptions)
    {t : DataType} (ht : s.consumerTags t = some a.tag) : s'.consumerTags t = some a.tag := by
  cases h.tags t with
  | inl heq => rw [heq, ht]
  | inr hnone => exact absurd ht (hnone.2 a ha)

theorem tag_none (h : Mild s s') {t : DataType} (ht : s.consumerTags t = none) :
    s'.consumerTags t = none := by
  cases h.tags t with
  | inl heq => rw [heq, ht]
  | inr hnone => exact hnone.1

theorem heldChannels (h : Mild s s') : s'.heldChannels = s.heldChannels := by
  rw [Process.heldChannels, Process.heldChannels, h.deliveryChannels, h.activeChannel]

end Mild

namespace Later

variable {s s₁ s₂ : Process}

theorem trans (h : Later s s₁) (h' : Later s₁ s₂) : Later s s₂ where
  issued := h.issued.trans h'.issued
  fresh a ha := by
    cases h'.fresh a ha with
    | inl hold => exact h.fresh a hold
    | inr hnew => exact .inr (h.issued.trans hnew)

end Later

section

variable {s s' : Process}

theorem Orderly.mild (h : Orderly s) (hmild : Mild s s') : Orderly s' where
  single := (hmild.subscriptions.map Subscription.dataType).nodup h.single
  holds a ha := by
    have hheld := hmild.heldChannels
    have hconnection := hmild.activeConnection
    cases h.holds a (hmild.mem ha) with
    | inl htag => exact .inl (hmild.tag_of_live ha htag)
    | inr hrest => exact .inr (by rwa [hheld, hconnection])
  opened a ha := hmild.opened a ha (h.opened a (hmild.mem ha))
  issued a ha := (h.issued a (hmild.mem ha)).trans_le hmild.issued
  tags t tag ht := (h.tags t tag (hmild.tag_of_some ht)).trans_le hmild.issued
  own a ha t ht := h.own a (hmild.mem ha) t (hmild.tag_of_some ht)
  queued a ha ht := by
    rw [hmild.queues]
    exact h.queued a (hmild.mem ha) (hmild.tag_of_some ht)

theorem Process.Traces.mild {a : Subscription} (h : s.Traces a) (hmild : Mild s s')
    (ha : a ∈ s'.broker.subscriptions) : s'.Traces a where
  tag := hmild.tag_of_live ha h.tag
  channel := by rw [hmild.deliveryChannels, h.channel]

theorem Linked.mild (h : Linked s) (hmild : Mild s s') : Linked s' := by
  intro t channel ht
  rw [hmild.deliveryChannels] at ht
  rw [hmild.activeConnection]
  exact h t channel ht

theorem Tracked.mild (h : Tracked s) (hmild : Mild s s') : Tracked s' where
  orderly := h.orderly.mild hmild
  traced a ha := (h.traced a (hmild.mem ha)).mild hmild ha
  linked := h.linked.mild hmild

end

/-! ## Sections apart -/

/-- No other task is in a section: as if every part that starts, closes, pauses or resumes
    consumers held the pause lock. -/
def Alone (_ : Region) (others : List (List Region)) : Prop := ∀ held ∈ others, held = []

instance (κ : Region) (others : List (List Region)) : Decidable (Alone κ others) :=
  inferInstanceAs (Decidable (∀ held ∈ others, held = []))

/-- The answer to a `consume` that the broker acted on comes back. -/
def Confirmed (choice : Choice) : {ρ : Type} → Wait ρ → Prop
  | _, .reply request result => request.starts = true → result.isSome = true → choice.delivered = true
  | _, _ => True

instance (choice : Choice) {ρ : Type} (w : Wait ρ) : Decidable (Confirmed choice w) :=
  match w with
  | .reply request result => inferInstanceAs
      (Decidable (request.starts = true → result.isSome = true → choice.delivered = true))
  | .act _ => .isTrue trivial
  | .sleep => .isTrue trivial
  | .lostConsumerTypes => .isTrue trivial
  | .probeDurableSchema => .isTrue trivial
  | .reconcileLegacyLatches => .isTrue trivial
  | .recordDurableSignal _ _ => .isTrue trivial
  | .readRefreshHealth => .isTrue trivial

/-- One task is in a section, or none and all is tracked. -/
structure Apart (σ : Nat → List Region) (s : Process) : Prop where
  exclusive : ∀ i j, σ i ≠ [] → σ j ≠ [] → i = j
  tracked : (∀ i, σ i = []) → Tracked s

def orderlyDiscipline : Discipline Process Region Choice Wait where
  inv := Orderly
  rely held s s' := Later s s' ∧ (held ≠ [] → Mild s s')
  guar held s s' := Later s s' ∧ (held = [] → Mild s s')
  opens κ _ _ := κ ≠ .pauseLock
  entry _ held s := held = [] → Tracked s
  exit held s := held.tail = [] → Tracked s
  locks κ := κ = .pauseLock
  world := Apart
  admits := Alone
  fair := Confirmed

theorem Apart.push {σ : Nat → List Region} {i : Nat} {s : Process} {others : List (List Region)}
    (hw : Apart σ s) (hbeside : Beside σ i others) {κ : Region} (halone : Alone κ others) :
    (σ i = [] → Tracked s) ∧ Apart (Function.update σ i (κ :: σ i)) s := by
  have hothers : ∀ j, j ≠ i → σ j = [] := by
    intro j hj
    cases hbeside j hj with
    | inl hnil => exact hnil
    | inr hmem => exact halone _ hmem
  have hself : ∀ j, Function.update σ i (κ :: σ i) j ≠ [] → j = i := by
    intro j hj
    by_contra hne
    rw [Function.update_of_ne hne] at hj
    exact hj (hothers j hne)
  refine ⟨fun hi => hw.tracked fun j => ?_, fun j k hj hk => (hself j hj).trans (hself k hk).symm, ?_⟩
  · by_cases hj : j = i
    · rw [hj, hi]
    · exact hothers j hj
  · intro hall
    have hi := hall i
    rw [Function.update_self] at hi
    cases hi

theorem Apart.pop {σ : Nat → List Region} {i : Nat} {s : Process} (hw : Apart σ s)
    (hexit : (σ i).tail = [] → Tracked s) : Apart (Function.update σ i (σ i).tail) s := by
  have hbusy : ∀ j, Function.update σ i (σ i).tail j ≠ [] → σ j ≠ [] := by
    intro j hj hnil
    by_cases hji : j = i
    · subst hji
      rw [Function.update_self, hnil] at hj
      exact hj rfl
    · rw [Function.update_of_ne hji] at hj
      exact hj hnil
  refine ⟨fun j k hj hk => hw.exclusive j k (hbusy j hj) (hbusy k hk), fun hall => hexit ?_⟩
  have hi := hall i
  rwa [Function.update_self] at hi

/-- A task outside its sections is mild to the one inside. -/
theorem Apart.mild {σ : Nat → List Region} {i j : Nat} {s s' : Process} (hw : Apart σ s)
    (hij : i ≠ j) (hj : σ j ≠ []) (h : orderlyDiscipline.guar (σ i) s s') : Mild s s' := by
  refine h.2 ?_
  by_contra hi
  exact hij (hw.exclusive i j hi hj)

/-- What happens outside the loader ends subscriptions at most. -/
theorem happen_mild (env : Happening) (s : Process) : Mild s (happen env s) := by
  cases env with
  | files completed signalled => exact .of_eq rfl rfl rfl rfl rfl rfl
  | shutdown => exact .of_eq rfl rfl rfl rfl rfl rfl
  | subscriptionLost tag =>
    exact ⟨List.filter_sublist, le_rfl, fun _ _ h => h, fun _ => .inl rfl, rfl, rfl, rfl, rfl⟩
  | channelLost channel =>
    refine ⟨List.filter_sublist, le_rfl, fun a ha hopen => ?_, fun _ => .inl rfl, rfl, rfl, rfl, rfl⟩
    exact List.mem_filter.2 ⟨hopen, (List.mem_filter.1 ha).2⟩

theorem orderlyDiscipline_lawful : orderlyDiscipline.Lawful machine.react where
  rely_refl held s := ⟨(Mild.refl s).later, fun _ => .refl s⟩
  rely_trans held s s₁ s₂ h h' := ⟨h.1.trans h'.1, fun hheld => (h.2 hheld).trans (h'.2 hheld)⟩
  rely_of_guar σ i j s s' _ _ hw hij h := ⟨h.1, fun hj => Apart.mild hw hij hj h⟩
  world_of_guar σ i s s' _ _ hw h := by
    refine ⟨Apart.exclusive hw, fun hall => ?_⟩
    exact (Apart.tracked hw hall).mild (h.2 (hall i))
  enter σ i κ others s _ hw hbeside halone _ := Apart.push hw hbeside halone
  acquire σ i κ others s _ hw hbeside halone _ _ := Apart.push hw hbeside halone
  leave σ i s _ hw hexit := Apart.pop hw hexit
  inv_react env s hinv := Orderly.mild hinv (happen_mild env s)
  world_react σ env s _ hw :=
    ⟨Apart.exclusive hw, fun hall => (Apart.tracked hw hall).mild (happen_mild env s)⟩
  rely_react held env s _ := ⟨(happen_mild env s).later, fun _ => happen_mild env s⟩

/-! ## Broker calls -/

/-- The subscriptions that a request ends. -/
def Rpc.Ends : Rpc → Subscription → Prop
  | .closeConnection connection, a => a.channel.connection = connection
  | .closeChannel channel, a => a.channel = channel
  | .cancel queue tag, a => a.tag = tag ∧ a.channel = queue
  | _, _ => False

/-- No live subscription is of this kind. -/
def Free (kind : Subscription → Prop) (s : Process) : Prop :=
  ∀ a ∈ s.broker.subscriptions, ¬kind a

theorem Free.mild {kind : Subscription → Prop} {s s' : Process} (h : Free kind s)
    (hmild : Mild s s') : Free kind s' :=
  fun a ha => h a (hmild.mem ha)

theorem act_mild {count n : Nat} {request : Rpc} {s : Process} {broker : Broker}
    (hstarts : request.starts = false) (hact : s.broker.act count request = some (n, broker)) :
    Mild s { s with broker := broker } ∧ Free request.Ends { s with broker := broker } := by
  have hkeep : ∀ {channels connections issued}, s.broker.channels ⊆ channels →
      s.broker.issued ≤ issued →
      Mild s { s with broker := ⟨connections, channels, s.broker.subscriptions, issued⟩ } :=
    fun hchannels hissued =>
      ⟨List.Sublist.refl _, hissued, fun _ _ h => hchannels h, fun _ => .inl rfl, rfl, rfl, rfl, rfl⟩
  have hsame : Mild s { s with broker := s.broker } := .refl s
  cases request with
  | connect =>
    cases hact
    exact ⟨hkeep (List.Subset.refl _) (Nat.le_succ _), fun _ _ h => h⟩
  | openChannel connection =>
    simp only [Broker.act] at hact
    split at hact <;> cases hact
    exact ⟨hkeep (List.subset_cons_self _ _) (Nat.le_succ _), fun _ _ h => h⟩
  | consume channel t => cases hstarts
  | closeConnection connection =>
    cases hact
    refine ⟨⟨List.filter_sublist, le_rfl, fun a ha hopen => ?_, fun _ => .inl rfl, rfl, rfl, rfl, rfl⟩, ?_⟩
    · exact List.mem_filter.2 ⟨hopen, by simpa using (List.mem_filter.1 ha).2⟩
    · exact fun a ha => by simpa [Rpc.Ends] using (List.mem_filter.1 ha).2
  | closeChannel channel =>
    cases hact
    refine ⟨⟨List.filter_sublist, le_rfl, fun a ha hopen => ?_, fun _ => .inl rfl, rfl, rfl, rfl, rfl⟩, ?_⟩
    · exact List.mem_filter.2 ⟨hopen, by simpa using (List.mem_filter.1 ha).2⟩
    · exact fun a ha => by simpa [Rpc.Ends] using (List.mem_filter.1 ha).2
  | cancel queue tag =>
    simp only [Broker.act] at hact
    split at hact <;> cases hact
    refine ⟨⟨List.filter_sublist, le_rfl, fun _ _ h => h, fun _ => .inl rfl, rfl, rfl, rfl, rfl⟩, ?_⟩
    intro a ha hends
    have hkept := (List.mem_filter.1 ha).2
    simp only [decide_eq_true_eq] at hkept
    exact hkept hends
  | messageCount channel t | setQos channel | declareExchange channel destination
  | declareQueue channel destination | bindQueue channel destination =>
    -- Neither a question nor a declaration touches what the model holds of the broker.
    simp only [Broker.act] at hact
    split at hact <;> cases hact
    exact ⟨hsame, fun _ _ h => h⟩

theorem noteStart_mild (s : Process) (completes : Bool) :
    Mild s (if completes then s.noteStart else s) := by
  cases completes with
  | true => exact .of_eq rfl rfl rfl rfl rfl rfl
  | false => exact .refl s

/-- Not the request that starts a subscription. -/
def Wait.Ending : {ρ : Type} → Wait ρ → Prop
  | _, .act request => request.starts = false
  | _, _ => True

theorem perform_mild {choice : Choice} {s s' : Process} {ρ : Type} {w : Wait ρ}
    {reply : Except Failure ρ} (h : perform choice s w = some (reply, s')) (hends : w.Ending) :
    Mild s s' := by
  have hsame : Mild s s := .refl s
  cases w with
  | act request =>
    simp only [perform] at h
    split at h
    · next hact =>
      cases h
      cases hacted : choice.acted with
      | true =>
        rw [hacted] at hact
        exact (act_mild hends hact).1
      | false =>
        rw [hacted] at hact
        cases hact
    · cases h
      exact hsame
  | reply request result =>
    cases h
    exact noteStart_mild s _
  | sleep => cases h; exact hsame
  | lostConsumerTypes => cases h; exact hsame
  | probeDurableSchema => cases h; exact hsame
  | reconcileLegacyLatches => cases h; exact hsame
  | recordDurableSignal t version => cases h; exact hsame
  | readRefreshHealth => cases h; exact hsame

/-! ## Assertions -/

/-- What a routine asserts while others go on: what they do leaves it standing. -/
structure Stable (held : List Region) (P : Process → Prop) : Prop where
  orderly : ∀ s, P s → Orderly s
  rely : ∀ s s', P s → orderlyDiscipline.rely held s s' → Orderly s' → P s'

theorem Stable.of_mild {held : List Region} {P : Process → Prop} (hheld : held ≠ [])
    (horderly : ∀ s, P s → Orderly s) (hmild : ∀ s s', P s → Mild s s' → P s') : Stable held P :=
  ⟨horderly, fun s s' hP hrely _ => hmild s s' hP (hrely.2 hheld)⟩

theorem Stable.mild {held : List Region} {P : Process → Prop} (h : Stable held P) {s s' : Process}
    (hP : P s) (hmild : Mild s s') : P s' :=
  h.rely s s' hP ⟨hmild.later, fun _ => hmild⟩ ((h.orderly s hP).mild hmild)

theorem Stable.free {held : List Region} {P : Process → Prop} (h : Stable held P) (hheld : held ≠ [])
    (kind : Subscription → Prop) : Stable held fun s => P s ∧ Free kind s :=
  .of_mild hheld (fun s hs => h.orderly s hs.1) fun _ _ hs hmild => ⟨h.mild hs.1 hmild, hs.2.mild hmild⟩

/-- The outcome of a routine: an assertion on its value, and one for a failure. -/
def Returns {α : Type} (Q : α → Process → Prop) (E : Process → Prop) : Except Failure α → Process → Prop
  | .ok a, s => Q a s
  | .error _, s => E s

/-- The outcome of a call: only an interrupt cancels it. -/
def Answered (stop : Option Failure) (P Q : Process → Prop) : Except Failure Nat → Process → Prop
  | .ok _, s => Q s
  | .error e, s => P s ∧ (e = .cancelled → stop = some .cancelled)

/-- The outcome of one wait of a call. -/
def Awaited {α : Type} (stop : Option Failure) (P : Process → Prop) (Q : α → Process → Prop) :
    Except Failure α → Process → Prop
  | .ok a, s => P s ∧ Q a s
  | .error e, s => P s ∧ (e = .cancelled → stop = some .cancelled)

theorem guar_of_mild {held : List Region} {s s' : Process} (h : Mild s s') :
    orderlyDiscipline.guar held s s' :=
  ⟨h.later, fun _ => h⟩

/-- A write by a task in a section. -/
theorem guar_of_later {held : List Region} (hheld : held ≠ []) {s s' : Process} (h : Later s s') :
    orderlyDiscipline.guar held s s' :=
  ⟨h, fun hnil => absurd hnil hheld⟩

theorem guar_of_broker {held : List Region} (hheld : held ≠ []) {s s' : Process}
    (h : s'.broker = s.broker) : orderlyDiscipline.guar held s s' :=
  guar_of_later hheld ⟨by rw [h], by rw [h]; exact fun _ ha => .inl ha⟩

section

variable {stop : Option Failure} {held : List Region} {α β : Type} {P Q : Process → Prop}

/-- A routine that keeps an assertion. -/
abbrev Upholds (stop : Option Failure) (held : List Region) (P : Process → Prop) {α : Type}
    (p : Lifecycle α) : Prop :=
  Triple machine orderlyDiscipline stop held P p fun _ => P

theorem upholds_pure (a : α) : Upholds stop held P (pure a) := triple_pure fun _ hP => hP

theorem upholds_raise (e : Failure) : Upholds stop held P (.raise e : Lifecycle α) :=
  triple_raise fun _ hP => hP

theorem upholds_bind {p : Lifecycle α} {f : α → Lifecycle β} (hp : Upholds stop held P p)
    (hf : ∀ a, Upholds stop held P (f a)) : Upholds stop held P (p >>= f) :=
  triple_bind hp hf fun _ _ hP => hP

theorem upholds_tryExcept {p handler : Lifecycle α} (hp : Upholds stop held P p)
    (hh : Upholds stop held P handler) : Upholds stop held P (tryExcept p handler) :=
  triple_tryExcept hp (fun _ _ hP => hP) (fun _ => hh) fun _ hP => hP

theorem upholds_when {condition : Bool} {p : Lifecycle Unit} (hp : Upholds stop held P p) :
    Upholds stop held P (when condition p) :=
  triple_when hp fun _ hP => hP

/-- A routine that starts nothing, and drops no tag or channel. -/
abbrev Ending (p : Lifecycle α) : Prop := p.Only (TaskOp.Within Mild Wait.Ending)

theorem Ending.upholds {p : Lifecycle α} (h : Ending p) (hP : Stable held P) :
    Upholds stop held P p := by
  have hstep : ∀ {s s'}, P s → Mild s s' →
      Orderly s' ∧ orderlyDiscipline.guar held s s' ∧ P s' := by
    intro s s' hs hmild
    exact ⟨(hP.orderly s hs).mild hmild, guar_of_mild hmild, hP.mild hs hmild⟩
  refine triple_of_within (fun _ _ hs hmild => hstep hs hmild) hP.rely ?_ h
  intro ρ w choice s reply s' hends hs _ hperform
  exact hstep hs (perform_mild hperform hends)

theorem read_ending {ρ : Type} (f : Process → ρ) : Ending (read f) := only_read Mild.refl f

theorem rpc_ending {request : Rpc} (h : request.starts = false) : Ending (rpc request) :=
  rpc_only h fun _ => trivial

theorem confirmed_ending {request : Rpc} (h : request.starts = false) : Ending (confirmed request) :=
  tryExcept_only (only_bind (rpc_ending h) fun _ => trivial) trivial

theorem triple_read {ρ : Type} {f : Process → ρ} {g : ρ → Lifecycle β}
    {R : Except Failure β → Process → Prop} (horderly : ∀ s, P s → Orderly s)
    (hg : ∀ a, Triple machine orderlyDiscipline stop held (fun s => P s ∧ f s = a) (g a) R) :
    Triple machine orderlyDiscipline stop held P (read f >>= g) R :=
  triple_read_bind (fun s hs => ⟨horderly s hs, guar_of_mild (.refl s)⟩) hg

/-- A call that starts nothing: when it returns, what it ends has ended. -/
theorem rpc_answered {request : Rpc} (hstarts : request.starts = false) (hP : Stable held P)
    (hQ : Stable held Q) (hdone : ∀ s, P s → Free request.Ends s → Q s) :
    Triple machine orderlyDiscipline stop held P (rpc request) (Answered stop P Q) := by
  have hact : Triple machine orderlyDiscipline stop held P (wait (.act request))
      (Awaited stop P fun result s => result.isSome = true → Q s) := by
    refine triple_wait hP.rely ?_ fun e hstop s hs => ⟨hs, fun h => h ▸ hstop⟩
    intro choice s reply s' hs hinv _ hperform
    have hmild : Mild s s' := perform_mild (w := .act request) hperform hstarts
    refine ⟨hinv.mild hmild, guar_of_mild hmild, ?_⟩
    have hs' := hP.mild hs hmild
    simp only [machine, perform] at hperform
    split at hperform
    · next n broker hacted =>
      cases hperform
      refine ⟨hs', fun _ => hdone _ hs' ?_⟩
      cases hchoice : choice.acted with
      | true =>
        rw [hchoice] at hacted
        exact (act_mild hstarts hacted).2
      | false =>
        rw [hchoice] at hacted
        cases hacted
    · cases hperform
      exact ⟨hs', fun h => by cases h⟩
  have hreply : ∀ result, Triple machine orderlyDiscipline stop held
      (fun s => P s ∧ (result.isSome = true → Q s)) (wait (.reply request result))
      (Awaited stop P fun _ s => result.isSome = true → Q s) := by
    intro result
    refine triple_wait ?_ ?_ fun e hstop s hs => ⟨hs.1, fun h => h ▸ hstop⟩
    · exact fun s s' hs hrely hinv =>
        ⟨hP.rely s s' hs.1 hrely hinv, fun h => hQ.rely s s' (hs.2 h) hrely hinv⟩
    · intro choice s reply s' hs hinv _ hperform
      cases hperform
      have hmild := noteStart_mild s (request.starts && result.isSome && choice.delivered)
      exact ⟨hinv.mild hmild, guar_of_mild hmild, hP.mild hs.1 hmild, fun h => hQ.mild (hs.2 h) hmild⟩
  refine triple_bind hact (fun result => triple_bind (hreply result) (fun delivered => ?_) ?_) ?_
  · cases result with
    | none => exact triple_raise fun s hs => ⟨hs.1, fun h => by cases h⟩
    | some a =>
      cases delivered with
      | true => exact triple_pure fun s hs => hs.2 rfl
      | false => exact triple_raise fun s hs => ⟨hs.1, fun h => by cases h⟩
  · exact fun e s hs => hs
  · exact fun e s hs => hs

theorem triple_rpc {request : Rpc} (hstarts : request.starts = false) (hP : Stable held P)
    (hQ : Stable held Q) (hdone : ∀ s, P s → Free request.Ends s → Q s) :
    Triple machine orderlyDiscipline stop held P (rpc request) (Returns (fun _ => Q) P) := by
  refine (rpc_answered hstarts hP hQ hdone).mono (fun _ hs => hs) fun r s hs => ?_
  cases r with
  | ok a => exact hs
  | error e => exact hs.1

end

end Tableinator.Consumers
