import Tableinator.Consumers.Pause
import Tableinator.Effect.Solo

/-! # The consumer gauge

Every tag that is entered, popped or cleared is counted, on the branch that does it: the
gauge moves with the tags of an operation that runs alone, whatever its broker calls do.
An operation beside another one may pop a tag the other has popped already, so the runs
here start an operation once the one before it has ended. -/

namespace Tableinator.Consumers

open Effect Effect.Program Effect.Routine

/-! ## Operations -/

/-- The attempts of `main` to connect; `none` when it is told to shut down first. -/
def connectAtStartup : Nat → Lifecycle (Option Connection)
  | 0 => pure none
  | attempts + 1 => do
    let shutdown ← read (·.shutdownRequested)
    if shutdown then pure none
    else do
      let connection? ← tryExcept
        (do
          let connection ← rpc .connect
          write fun s => { s with activeConnection := some connection }
          pure (some connection))
        (pure none)
      match connection? with
      | some connection => pure (some connection)
      | none =>
        if attempts = 0 then .raise (.exception "StartupFailure")
        else do
          let _ ← wait .sleep
          connectAtStartup attempts

def subscribeAll : List DataType → Lifecycle Unit
  | [] => pure ()
  | t :: types => do
    startTracked t
    subscribeAll types

/-- The subscription of `main`, which declares on the channel it has just made active. -/
def startup : Lifecycle Unit := do
  let connection? ← connectAtStartup 5
  match connection? with
  | none => pure ()
  | some connection => do
    let number ← rpc (.openChannel connection)
    let channel : Channel := ⟨connection, number⟩
    write fun s => { s with activeChannel := some channel }
    let _ ← rpc (.setQos channel)
    write fun s => { s with queues := fun _ => none }
    declareQueues typeOrder
    -- Missing durable schema is a hard subscription gate.
    let subscribes ← read fun s => !s.durableRefreshActive || s.durableRefreshReady
    when subscribes (subscribeAll typeOrder)

/-- The loop of `cancel_all_consumers`: the first call that fails ends it. -/
def cancelConfirmed : List (DataType × Tag) → Lifecycle Unit
  | [] => pure ()
  | (t, tag) :: items => do
    let queue? ← read (·.queues t)
    match queue? with
    | none => do
      cancellationFailed
      cancelConfirmed items
    | some queue => do
      let cancelled ← confirmed (.cancel queue tag)
      if cancelled then do
        write fun s => if s.consumerTags t = some tag then s.untrackTag t else s
        cancelConfirmed items
      else cancellationFailed

/-- `cancel_all_consumers`. -/
def cancelAllConsumers : Lifecycle Unit := do
  let items ← read Process.tagItems
  cancelConfirmed items

inductive Operation where
  | startup
  | completionTimer (dataType : DataType) (queue : Channel) (tag : Tag)
  | cancelAllConsumers
  | pauseDurableConsumers (dataType : DataType) (version : String)
  | resetDurableBroker
  | attemptDurableRecovery
  | recoverDataType (dataType : DataType)
  | recoverParkedMarkers
  | closeRecoveryBroker
  | recoverConsumers

def finishing {α : Type} (body : Lifecycle α) : Lifecycle Unit := do
  let _ ← body
  pure ()

/-- The operations as tasks; each can be cancelled at any wait.  A completion timer acts on
    the queue and the tag of whenever it was set. -/
def operations : Machine Process Region Operation Choice Happening Wait Failure where
  program
    | .startup => startup
    | .completionTimer t queue tag => cancelAfterDelay t queue tag
    | .cancelAllConsumers => cancelAllConsumers
    | .pauseDurableConsumers t version => finishing (pauseDurableConsumers t version)
    | .resetDurableBroker => finishing resetDurableBroker
    | .attemptDurableRecovery => finishing attemptDurableRecovery
    | .recoverDataType t => finishing (recoverDataType t)
    | .recoverParkedMarkers => recoverParkedMarkers
    | .closeRecoveryBroker => finishing closeRecoveryBroker
    | .recoverConsumers => recoverConsumers
  interrupt _ := some .cancelled
  perform := perform
  react := happen

/-- `main` subscribes once, before anything is tracked. -/
def Operation.starts : Operation → Process → Prop
  | .startup, s => s.tagged = false
  | _, _ => True

instance (operation : Operation) (s : Process) : Decidable (operation.starts s) := by
  cases operation <;> unfold Operation.starts <;> infer_instance

/-! ## The tags and the gauge -/

/-- The tags and the gauge are as before. -/
structure Unmoved (s s' : Process) : Prop where
  consumerTags : s'.consumerTags = s.consumerTags
  consumersActive : s'.consumersActive = s.consumersActive

/-- As many consumers have started and not stopped as are tracked. -/
def Balanced (s : Process) : Prop := s.consumersActive = s.tagItems.length

theorem Untouched.unmoved {s s' : Process} (h : Untouched s s') : Unmoved s s' :=
  ⟨h.consumerTags, h.consumersActive⟩

theorem Balanced.unmoved {s s' : Process} (h : Balanced s) (hmove : Unmoved s s') : Balanced s' := by
  have hitems : s'.tagItems = s.tagItems := by simp only [Process.tagItems, hmove.consumerTags]
  rw [Balanced, hmove.consumersActive, hitems]
  exact h

theorem length_tagItems (s : Process) :
    s.tagItems.length = typeOrder.countP fun t => (s.consumerTags t).isSome := by
  simp [Process.tagItems, List.length_filterMap_eq_countP]

theorem Balanced.trackTag {t : DataType} {tag : Tag} {s : Process} (h : Balanced s)
    (ht : s.consumerTags t = none) : Balanced (s.trackTag t tag) := by
  have hlength : ((s.trackTag t tag).tagItems.length : Int) = s.tagItems.length + 1 := by
    rw [length_tagItems, length_tagItems]
    cases t <;>
      simp [Process.trackTag, Process.setTag, typeOrder, Function.update_apply, List.countP_cons, ht] <;>
      omega
  rw [Balanced, hlength, ← h]
  rfl

theorem Balanced.untrackTag {t : DataType} {s : Process} (h : Balanced s)
    (ht : (s.consumerTags t).isSome = true) : Balanced (s.untrackTag t) := by
  have hlength : ((s.untrackTag t).tagItems.length : Int) = s.tagItems.length - 1 := by
    rw [length_tagItems, length_tagItems]
    cases t <;>
      simp [Process.untrackTag, Process.setTag, typeOrder, Function.update_apply, List.countP_cons, ht] <;>
      omega
  rw [Balanced, hlength, ← h]
  rfl

theorem tagItems_of_untagged {s : Process} (h : ∀ t, s.consumerTags t = none) :
    s.tagItems = [] := by
  simp [Process.tagItems, h]

/-- Both ends of a transport stop as many consumers as they forget. -/
theorem Balanced.forget {s s' : Process} (h : Balanced s) (htags : ∀ t, s'.consumerTags t = none)
    (hactive : s'.consumersActive = s.consumersActive - s.tagItems.length) : Balanced s' := by
  rw [Balanced, hactive, tagItems_of_untagged htags, h, List.length_nil]
  omega

/-- A tag that is still tracked is popped. -/
theorem Balanced.untrackIf {t : DataType} {tag : Tag} {s : Process} (h : Balanced s) :
    Balanced (if s.consumerTags t = some tag then s.untrackTag t else s) := by
  split
  · next htag => exact h.untrackTag (by rw [htag]; rfl)
  · exact h

theorem happen_unmoved (env : Happening) (s : Process) : Unmoved s (happen env s) := by
  cases env <;> exact ⟨rfl, rfl⟩

theorem perform_unmoved {choice : Choice} {s s' : Process} {ρ : Type} {w : Wait ρ}
    {reply : Except Failure ρ} (h : perform choice s w = some (reply, s')) : Unmoved s s' := by
  cases w with
  | act request =>
    simp only [perform] at h
    split at h <;> (cases h; exact ⟨rfl, rfl⟩)
  | reply request result =>
    cases h
    split <;> exact ⟨rfl, rfl⟩
  | sleep => cases h; exact ⟨rfl, rfl⟩
  | lostConsumerTypes => cases h; exact ⟨rfl, rfl⟩
  | probeDurableSchema => cases h; exact ⟨rfl, rfl⟩
  | reconcileLegacyLatches => cases h; exact ⟨rfl, rfl⟩
  | recordDurableSignal t version => cases h; exact ⟨rfl, rfl⟩
  | readRefreshHealth => cases h; exact ⟨rfl, rfl⟩

theorem outside_unmoved : Outside Unmoved operations.react where
  refl _ := ⟨rfl, rfl⟩
  trans _ _ _ h h' :=
    ⟨h'.consumerTags.trans h.consumerTags, h'.consumersActive.trans h.consumersActive⟩
  react := happen_unmoved

/-! ## Routines that run alone -/

/-- From `I` to `J`, alone and however it ends. -/
abbrev Leads {α : Type} (held : List Region) (I J : Process → Prop) (p : Lifecycle α) : Prop :=
  Triple operations (aloneDiscipline Unmoved) (some .cancelled) held I p fun _ => J

/-- An assertion about the tags and the gauge. -/
def Counts (I : Process → Prop) : Prop := ∀ s s', Unmoved s s' → I s → I s'

section

variable {α β : Type} {held : List Region} {I J : Process → Prop} {p : Lifecycle α}

theorem balanced_counts : Counts Balanced := fun _ _ hmove h => h.unmoved hmove

theorem Calm.leads (h : Calm p) (hI : Counts I) : Leads held I I p := by
  refine triple_of_within ?_ (fun s s' hs hrely _ => hI s s' hrely hs) ?_ h
  · exact fun s s' hs hchange => ⟨trivial, trivial, hI s s' hchange.unmoved hs⟩
  · intro ρ w choice s reply s' _ hs _ hperform
    exact ⟨trivial, trivial, hI s s' (perform_unmoved hperform) hs⟩

theorem leads_pure (a : α) : Leads held I I (pure a) := triple_pure fun _ hI => hI

theorem leads_raise (e : Failure) : Leads held I I (.raise e : Lifecycle α) :=
  triple_raise fun _ hI => hI

theorem leads_bind {f : α → Lifecycle β} (hp : Leads held I I p) (hf : ∀ a, Leads held I I (f a)) :
    Leads held I I (p >>= f) :=
  triple_bind hp hf fun _ _ hI => hI

theorem leads_write {f : Process → Process} (h : ∀ s, I s → J (f s)) :
    Leads held I J (write f) :=
  triple_write fun s hI => ⟨trivial, trivial, h s hI⟩

theorem leads_read {ρ : Type} {f : Process → ρ} {g : ρ → Lifecycle β}
    (hg : ∀ a, Leads held (fun s => I s ∧ f s = a) J (g a)) : Leads held I J (read f >>= g) :=
  triple_read_bind (fun _ _ => ⟨trivial, trivial⟩) hg

theorem leads_tryExcept {handler : Lifecycle α} (hp : Leads held I I p)
    (hh : Leads held I I handler) : Leads held I I (tryExcept p handler) :=
  triple_tryExcept hp (fun _ _ hI => hI) (fun _ => hh) fun _ hI => hI

theorem leads_tryCatch {handler : Failure → Lifecycle α} (hp : Leads held I I p)
    (hh : ∀ e, Leads held I I (handler e)) : Leads held I I (p.tryCatch handler) :=
  triple_tryCatch hp (fun _ _ hI => hI) hh

theorem leads_when {condition : Bool} {p : Lifecycle Unit} (hp : Leads held I I p) :
    Leads held I I (when condition p) :=
  triple_when hp fun _ hI => hI

theorem leads_leaving {κ : Region} (hp : Leads (κ :: held) I I p) {s : Process} (hs : I s) :
    Sound operations (aloneDiscipline Unmoved) (some .cancelled) (p.ensuring leave)
      (fun held' s' _ => held' = held ∧ I s') (κ :: held) s :=
  hp.leaving (fun _ _ _ => trivial) hs

theorem leads_recovering {closed : α} (hp : Leads (.recovering :: held) I I p) :
    Leads held I I (recovering closed p) := by
  intro s hs
  exact ⟨fun _ => ⟨trivial, fun _ => leads_leaving hp hs⟩, fun _ => ⟨rfl, hs⟩⟩

theorem leads_closing (hp : Leads (.closing :: held) I I p) : Leads held I I (closing p) := by
  intro s hs
  exact ⟨fun _ => ⟨trivial, fun _ => leads_leaving hp hs⟩, fun h => by cases h⟩

theorem leads_pausing (hp : Leads (.pausing :: held) I I p) :
    Leads held I I (do
      let _ ← enter .pausing fun _ => true
      p.ensuring leave) := by
  intro s hs
  exact ⟨fun _ => ⟨trivial, fun _ => leads_leaving hp hs⟩, fun h => by cases h⟩

theorem leads_withPauseLock (hI : Counts I) (hp : Leads (.pauseLock :: held) I I p) :
    Leads held I I (withPauseLock p) := by
  intro s hs
  refine ⟨trivial, fun s₁ hrely _ => ?_⟩
  have hs₁ := hI s s₁ hrely hs
  exact ⟨fun _ => leads_leaving hp hs₁, fun _ _ => ⟨rfl, hs₁⟩⟩

/-! ## Closing -/

theorem write_leads {f : Process → Process} (h : ∀ s, Untouched s (f s)) (hI : Counts I) :
    Leads held I I (write f) :=
  leads_write fun s hs => hI s _ (h s).unmoved hs

theorem resetDurableBroker_leads : Leads held Balanced Balanced resetDurableBroker := by
  have hread : ∀ {ρ : Type} (f : Process → ρ), Leads held Balanced Balanced (read f) :=
    fun f => (read_quiet f).calm.leads balanced_counts
  refine leads_bind (hread _) fun connection => leads_bind (hread _) fun channels => ?_
  refine leads_bind (hread _) fun tagged => ?_
  split
  · exact leads_pure false
  · have hclose := (closeTransport_quiet connection channels).calm
    refine leads_bind (hclose.leads balanced_counts) fun closed => ?_
    split
    · exact leads_pure false
    · -- the gauge goes down by the tags that are forgotten
      have hforget : Leads held Balanced Balanced (write Process.forgetTags) :=
        leads_write fun s hs => hs.forget (fun _ => rfl) rfl
      exact leads_bind hforget fun _ => leads_pure true

theorem resetUncertain_leads : Leads held Balanced Balanced resetUncertain := by
  have hpending : Leads held Balanced Balanced
      (write fun s : Process => { s with durableRefreshBrokerResetPending := true }) :=
    write_leads (fun _ => ⟨rfl, rfl, rfl, rfl, rfl, rfl⟩) balanced_counts
  exact leads_bind hpending fun _ => leads_bind resetDurableBroker_leads fun _ => leads_pure ()

theorem closeRecoveryBroker_leads : Leads held Balanced Balanced closeRecoveryBroker := by
  have hread : ∀ {ρ : Type} (f : Process → ρ), Leads held Balanced Balanced (read f) :=
    fun f => (read_quiet f).calm.leads balanced_counts
  have hfailed : Leads held Balanced Balanced cancellationFailed :=
    cancellationFailed_quiet.calm.leads balanced_counts
  refine leads_bind (hread _) fun connection => leads_bind (hread _) fun channels => ?_
  split
  · refine leads_bind (hread _) fun tagged => ?_
    split
    · exact leads_bind hfailed fun _ => leads_pure false
    · exact leads_pure true
  · have hclose := (closeRecoveryTransport_quiet connection channels).calm
    refine leads_bind (hclose.leads balanced_counts) fun closed => ?_
    split
    · exact leads_pure false
    · have hforget : Leads held Balanced Balanced (write Process.forgetTransport) :=
        leads_write fun s hs => hs.forget (fun _ => rfl) rfl
      exact leads_bind hforget fun _ => leads_pure true

/-! ## Starting -/

/-- Nothing is tracked for the type. -/
def Untracked (t : DataType) (s : Process) : Prop := Balanced s ∧ s.consumerTags t = none

theorem untracked_counts (t : DataType) : Counts (Untracked t) := by
  intro s s' hmove hs
  exact ⟨hs.1.unmoved hmove, by rw [hmove.consumerTags, hs.2]⟩

/-- The tag arrives and is counted, or neither. -/
theorem startTracked_leads (t : DataType) :
    Leads held (Untracked t) Balanced (startTracked t) := by
  refine triple_bind ((startConsumer_calm t).leads (untracked_counts t)) (fun tag => ?_)
    fun _ s hs => hs.1
  exact leads_write fun s hs => hs.1.trackTag hs.2

theorem startOrDrop_leads (t : DataType) : Leads held (Untracked t) Balanced (startOrDrop t) := by
  have hstart : Leads held (Untracked t) Balanced
      (do
        startTracked t
        pure true) :=
    triple_bind (startTracked_leads t) (fun _ => leads_pure true) fun _ _ hs => hs
  have hdrop : Leads held Balanced Balanced (write (·.setDeliveryChannel t none)) :=
    write_leads (fun _ => ⟨rfl, rfl, rfl, rfl, rfl, rfl⟩) balanced_counts
  refine triple_tryExcept hstart (fun _ _ hs => hs) (fun name => ?_) fun _ hs => hs
  exact leads_bind hdrop fun _ => leads_pure false

theorem startAllMissing_leads (backlog types : List DataType) :
    Leads held Balanced Balanced (startAllMissing backlog types) := by
  have hmissing : ∀ t, Leads held Balanced Balanced (startMissing backlog t) := by
    intro t
    refine leads_read fun missing => ?_
    cases missing with
    | false => exact triple_pure fun s hs => hs.1
    | true =>
      refine triple_bind ((startTracked_leads t).mono ?_ fun _ _ hs => hs) (fun _ => ?_)
        fun _ _ hs => hs
      · intro s hs
        simp only [Bool.and_eq_true, Option.isNone_iff_eq_none] at hs
        exact ⟨hs.1, hs.2.2⟩
      · exact leads_when (write_leads (fun _ => ⟨rfl, rfl, rfl, rfl, rfl, rfl⟩) balanced_counts)
  induction types with
  | nil => exact leads_pure ()
  | cons t types ih => exact leads_bind (hmissing t) fun _ => ih

/-! ## Recovery -/

theorem openRecoveryTransport_leads : Leads held Balanced Balanced openRecoveryTransport := by
  have hrpc : ∀ {request}, (∀ r, (Wait.reply request r).Plain) →
      Leads held Balanced Balanced (rpc request) :=
    fun h => (rpc_quiet h).calm.leads balanced_counts
  have hwrite : ∀ {f : Process → Process}, (∀ s, Untouched s (f s)) →
      Leads held Balanced Balanced (write f) := fun h => write_leads h balanced_counts
  refine leads_tryCatch ?_ fun e => ?_
  · refine leads_bind (hrpc fun _ => rfl) fun connection => ?_
    refine leads_bind (hwrite fun _ => ⟨rfl, rfl, rfl, rfl, rfl, rfl⟩) fun _ => ?_
    refine leads_bind (hrpc fun _ => rfl) fun number => ?_
    exact leads_bind (hwrite fun _ => ⟨rfl, rfl, rfl, rfl, rfl, rfl⟩) fun _ => leads_pure _
  · cases e with
    | cancelled =>
      have hfailed := @Calm.leads _ held _ _ cancellationFailed_quiet.calm balanced_counts
      exact leads_bind hfailed fun _ => leads_raise _
    | exception name => exact leads_bind closeRecoveryBroker_leads fun _ => leads_pure none

theorem restartConsumers_leads (channel : Channel) :
    Leads held Balanced Balanced (restartConsumers channel) := by
  have hbacklog := (queuesWithMessages_quiet channel typeOrder).calm
  refine leads_bind (hbacklog.leads balanced_counts) fun backlog => ?_
  refine leads_bind ((read_quiet _).calm.leads balanced_counts) fun incomplete => ?_
  split
  · have hqos : Quiet (onActiveChannel .setQos) := onActiveChannel_quiet fun _ _ => rfl
    refine leads_bind (hqos.calm.leads balanced_counts) fun _ => ?_
    have hqueues : Leads held Balanced Balanced
        (write fun s : Process => { s with queues := fun _ => none }) :=
      write_leads (fun _ => ⟨rfl, rfl, rfl, rfl, rfl, rfl⟩) balanced_counts
    refine leads_bind hqueues fun _ => ?_
    refine leads_bind ((declareQueues_quiet typeOrder).calm.leads balanced_counts) fun _ => ?_
    exact startAllMissing_leads backlog typeOrder
  · exact leads_bind closeRecoveryBroker_leads fun _ => leads_pure ()

theorem replaceTransport_leads : Leads held Balanced Balanced replaceTransport := by
  refine leads_bind closeRecoveryBroker_leads fun closed => ?_
  split
  · exact leads_pure ()
  · refine leads_bind openRecoveryTransport_leads fun channel? => ?_
    cases channel? with
    | none => exact leads_pure ()
    | some channel =>
      refine leads_tryCatch (restartConsumers_leads channel) fun e => ?_
      cases e with
      | cancelled =>
        have hfailed := @Calm.leads _ held _ _ cancellationFailed_quiet.calm balanced_counts
        exact leads_bind hfailed fun _ => leads_raise _
      | exception name => exact leads_bind closeRecoveryBroker_leads fun _ => leads_pure ()

theorem recoverConsumers_leads : Leads held Balanced Balanced recoverConsumers :=
  leads_recovering replaceTransport_leads

/-- The tag of the type is the one that was read, and it is dropped before a new one. -/
theorem replaceConsumer_leads (t : DataType) :
    Leads held Balanced Balanced (replaceConsumer t) := by
  refine leads_bind ((read_quiet _).calm.leads balanced_counts) fun oldChannel => ?_
  refine leads_bind (write_leads (fun _ => ⟨rfl, rfl, rfl, rfl, rfl, rfl⟩) balanced_counts) fun _ => ?_
  refine leads_read fun oldTag => ?_
  have hcounts : Counts fun s => Balanced s ∧ s.consumerTags t = oldTag := by
    intro s s' hmove hs
    exact ⟨hs.1.unmoved hmove, by rw [hmove.consumerTags, hs.2]⟩
  refine triple_bind ((closeOldChannel_quiet t oldChannel).calm.leads hcounts) (fun closed => ?_)
    fun _ s hs => hs.1
  split
  · exact triple_pure fun s hs => hs.1
  · have hpop : Leads held (fun s => Balanced s ∧ s.consumerTags t = oldTag) (Untracked t)
        (when oldTag.isSome (write (·.untrackTag t))) := by
      cases oldTag with
      | none => exact triple_pure fun s hs => hs
      | some tag =>
        refine leads_write fun s hs => ⟨hs.1.untrackTag ?_, s.setTag_self none⟩
        rw [hs.2]
        rfl
    refine triple_bind hpop (fun _ => ?_) fun _ s hs => hs.1
    refine triple_bind ((read_quiet _).calm.leads (untracked_counts t)) (fun connection => ?_)
      fun _ s hs => hs.1
    split
    · exact triple_pure fun s hs => hs.1
    · exact startOrDrop_leads t

theorem recoverDataType_leads (t : DataType) : Leads held Balanced Balanced (recoverDataType t) :=
  leads_recovering (replaceConsumer_leads t)

theorem resubscribeAllParked_leads (types : List DataType) :
    Leads held Balanced Balanced (resubscribeAllParked types) := by
  have hparked : ∀ t, Leads held Balanced Balanced (resubscribeParked t) := by
    intro t
    refine leads_bind ((queueDepth_quiet t).calm.leads balanced_counts) fun depth => ?_
    refine leads_read fun skip => ?_
    cases hstart : (depth.getD 0 ≠ 0 && !skip : Bool) with
    | false => exact triple_pure fun s hs => hs.1
    | true =>
      refine triple_bind ((startOrDrop_leads t).mono ?_ fun _ _ hs => hs)
        (fun _ => leads_pure ()) fun _ _ hs => hs
      intro s hs
      simp only [Bool.and_eq_true, Bool.not_eq_true'] at hstart
      have htag := hs.2.trans hstart.2
      simp only [Bool.or_eq_false_iff, Option.isSome_eq_false_iff, Option.isNone_iff_eq_none] at htag
      exact ⟨hs.1, htag.1⟩
  induction types with
  | nil => exact leads_pure ()
  | cons t types ih => exact leads_bind (hparked t) fun _ => ih

theorem recoverParkedMarkers_leads : Leads held Balanced Balanced recoverParkedMarkers := by
  refine leads_bind ((read_quiet _).calm.leads balanced_counts) fun pending => ?_
  refine leads_bind ((read_quiet _).calm.leads balanced_counts) fun shutdown => ?_
  split
  · exact leads_pure ()
  · refine leads_recovering ?_
    refine leads_bind ((read_quiet _).calm.leads balanced_counts) fun connection => ?_
    split
    · exact recoverConsumers_leads
    · exact resubscribeAllParked_leads pending

/-! ## Cancellation -/

/-- The consumers of a list are tracked, each once. -/
structure Enrolled (items : List (DataType × Tag)) (s : Process) : Prop where
  balanced : Balanced s
  nodup : (items.map Prod.fst).Nodup
  tracked : ∀ item ∈ items, (s.consumerTags item.1).isSome = true

theorem enrolled_counts (items : List (DataType × Tag)) : Counts (Enrolled items) := by
  intro s s' hmove hs
  refine ⟨hs.balanced.unmoved hmove, hs.nodup, fun item hitem => ?_⟩
  rw [hmove.consumerTags]
  exact hs.tracked item hitem

theorem Balanced.enrolled {s : Process} (h : Balanced s) : Enrolled s.tagItems s := by
  refine ⟨h, ?_, fun item hitem => ?_⟩
  · have htypes : s.tagItems.map Prod.fst = typeOrder.filter fun t => (s.consumerTags t).isSome := by
      rw [Process.tagItems, List.map_filterMap, ← List.filterMap_eq_filter]
      refine List.filterMap_congr fun t _ => ?_
      cases htag : s.consumerTags t <;> simp [Option.guard, htag]
    rw [htypes]
    exact List.Nodup.filter _ (by decide)
  · obtain ⟨t, _, hpair⟩ := List.mem_filterMap.1 hitem
    obtain ⟨tag, htag, rfl⟩ := Option.map_eq_some_iff.1 hpair
    simp [htag]

theorem Enrolled.tail {item : DataType × Tag} {items : List (DataType × Tag)} {s : Process}
    (h : Enrolled (item :: items) s) : Enrolled items s :=
  ⟨h.balanced, (List.nodup_cons.1 h.nodup).2, fun other hother =>
    h.tracked other (List.mem_cons_of_mem _ hother)⟩

theorem Enrolled.untrackTag {item : DataType × Tag} {items : List (DataType × Tag)} {s : Process}
    (h : Enrolled (item :: items) s) : Enrolled items (s.untrackTag item.1) := by
  obtain ⟨hfresh, hnodup⟩ := List.nodup_cons.1 h.nodup
  refine ⟨h.balanced.untrackTag (h.tracked item List.mem_cons_self), hnodup, fun other hother => ?_⟩
  have hne : other.1 ≠ item.1 := fun heq => hfresh (heq ▸ List.mem_map_of_mem hother)
  have htag : (s.untrackTag item.1).consumerTags other.1 = s.consumerTags other.1 :=
    s.setTag_of_ne none hne
  rw [htag]
  exact h.tracked other (List.mem_cons_of_mem _ hother)

theorem cancelEach_leads (items : List (DataType × Tag)) :
    Leads held (Enrolled items) Balanced (cancelEach items) := by
  induction items with
  | nil =>
    have hreturned : Leads held Balanced Balanced
        (write (fun s : Process => { s with pauseReturned := true }) >>= fun _ => pure true) :=
      leads_bind (leads_write fun s hs => hs.unmoved ⟨rfl, rfl⟩) fun _ => leads_pure true
    exact hreturned.mono (fun _ hs => hs.balanced) fun _ _ hs => hs
  | cons item items ih =>
    have hcancel := (cancelTap_quiet item.1 item.2).calm
    refine triple_bind (hcancel.leads (enrolled_counts (item :: items))) (fun cancelled => ?_)
      fun _ s hs => hs.balanced
    cases cancelled with
    | false =>
      have hreset : Leads held Balanced Balanced (resetUncertain >>= fun _ => pure false) :=
        leads_bind resetUncertain_leads fun _ => leads_pure false
      exact hreset.mono (fun _ hs => hs.balanced) fun _ _ hs => hs
    | true =>
      exact triple_bind (leads_write fun s hs => hs.untrackTag) (fun _ => ih)
        fun _ s hs => hs.balanced

theorem cancelPartial_leads (items : List (DataType × Tag)) :
    Leads held (Enrolled items) Balanced (cancelPartial items) := by
  induction items with
  | nil => exact triple_pure fun s hs => hs.balanced
  | cons item items ih =>
    have hcancel := (cancelTap_quiet item.1 item.2).calm
    refine triple_bind (hcancel.leads (enrolled_counts (item :: items))) (fun cancelled => ?_)
      fun _ s hs => hs.balanced
    have hpop : Leads held (Enrolled (item :: items)) (Enrolled items)
        (when cancelled (write (·.untrackTag item.1))) := by
      cases cancelled with
      | false => exact triple_pure fun s hs => hs.tail
      | true => exact leads_write fun s hs => hs.untrackTag
    refine triple_bind hpop (fun _ => ?_) fun _ s hs => hs.balanced
    exact triple_bind ih (fun _ => leads_pure _) fun _ _ hs => hs

theorem cancelConfirmed_leads (items : List (DataType × Tag)) :
    Leads held Balanced Balanced (cancelConfirmed items) := by
  have hfailed : Leads held Balanced Balanced cancellationFailed :=
    cancellationFailed_quiet.calm.leads balanced_counts
  induction items with
  | nil => exact leads_pure ()
  | cons item items ih =>
    refine leads_bind ((read_quiet _).calm.leads balanced_counts) fun queue? => ?_
    cases queue? with
    | none => exact leads_bind hfailed fun _ => ih
    | some queue =>
      have hcancel : Quiet (confirmed (.cancel queue item.2)) := confirmed_quiet fun _ => rfl
      refine leads_bind (hcancel.calm.leads balanced_counts) fun cancelled => ?_
      split
      · exact leads_bind (leads_write fun s hs => hs.untrackIf) fun _ => ih
      · exact hfailed

theorem cancelAllConsumers_leads : Leads held Balanced Balanced cancelAllConsumers :=
  leads_bind ((read_quiet _).calm.leads balanced_counts) cancelConfirmed_leads

theorem cancelAfterDelay_leads (t : DataType) (queue : Channel) (tag : Tag) :
    Leads held Balanced Balanced (cancelAfterDelay t queue tag) := by
  have hfailed : Leads held Balanced Balanced cancellationFailed :=
    cancellationFailed_quiet.calm.leads balanced_counts
  have hread : ∀ {ρ : Type} (f : Process → ρ), Leads held Balanced Balanced (read f) :=
    fun f => (read_quiet f).calm.leads balanced_counts
  refine leads_bind (hread _) fun current => leads_when (leads_tryCatch ?_ fun e => ?_)
  · have hcancel : Quiet (rpc (.cancel queue tag)) := rpc_quiet fun _ => rfl
    refine leads_bind (hcancel.calm.leads balanced_counts) fun _ => ?_
    refine leads_bind (leads_write fun s hs => hs.untrackIf) fun _ => ?_
    refine leads_bind (hread _) fun idle => leads_when ?_
    exact leads_bind (leads_closing closeRecoveryBroker_leads) fun _ => leads_pure ()
  · cases e with
    | cancelled => exact leads_bind hfailed fun _ => leads_raise _
    | exception name => exact hfailed

/-! ## Pause and resumption -/

theorem pauseDurableConsumers_leads (t : DataType) (version : String) :
    Leads held Balanced Balanced (pauseDurableConsumers t version) := by
  refine leads_withPauseLock balanced_counts ?_
  refine leads_bind (leads_write fun s hs => hs.unmoved ⟨rfl, rfl⟩) fun _ => ?_
  refine leads_pausing (leads_read fun items => ?_)
  refine (cancelEach_leads items).mono ?_ fun _ _ hs => hs
  rintro s ⟨hs, rfl⟩
  exact hs.enrolled

theorem resumeTypes_leads (types : List DataType) :
    Leads held Balanced Balanced (resumeTypes types) := by
  induction types with
  | nil => exact leads_pure ()
  | cons t types ih =>
    refine leads_read fun missing => ?_
    have hstart : Leads held
        (fun s => Balanced s ∧ ((s.consumerTags t).isNone && (s.queues t).isSome) = missing) Balanced
        (when missing (startTracked t)) := by
      cases missing with
      | false => exact triple_pure fun s hs => hs.1
      | true =>
        refine (startTracked_leads t).mono ?_ fun _ _ hs => hs
        intro s hs
        simp only [Bool.and_eq_true, Option.isNone_iff_eq_none] at hs
        exact ⟨hs.1, hs.2.1⟩
    exact triple_bind hstart (fun _ => ih) fun _ _ hs => hs

theorem resumeConsumers_leads : Leads held Balanced Balanced resumeConsumers := by
  have hread : ∀ {ρ : Type} (f : Process → ρ), Leads held Balanced Balanced (read f) :=
    fun f => (read_quiet f).calm.leads balanced_counts
  have hresubscribe : Leads held Balanced Balanced resubscribe := by
    refine leads_bind (hread _) fun attached => ?_
    split
    · exact leads_bind (hread _) resumeTypes_leads
    · exact recoverConsumers_leads
  refine leads_bind hresubscribe fun _ => leads_bind (hread _) fun missing => ?_
  exact leads_when (leads_raise _)

theorem gateClosed_leads : Leads held Balanced Balanced (write Process.gateClosed) :=
  leads_write fun _ hs => hs.unmoved ⟨rfl, rfl⟩

theorem abandonResumption_leads : Leads held Balanced Balanced abandonResumption := by
  refine leads_bind gateClosed_leads fun _ => leads_read fun items => ?_
  refine triple_bind ((cancelPartial_leads items).mono ?_ fun _ _ hs => hs) (fun uncertain => ?_)
    fun _ _ hs => hs
  · rintro s ⟨hs, rfl⟩
    exact hs.enrolled
  · exact leads_bind (leads_when resetUncertain_leads) fun _ => leads_pure false

theorem replayFailedSignals_leads : Leads held Balanced Balanced replayFailedSignals := by
  have hwait : ∀ {ρ : Type} {w : Wait ρ}, Leads held Balanced Balanced (wait w) :=
    fun {_ _} => @Calm.leads _ held _ _ (only_wait trivial) balanced_counts
  refine leads_tryExcept ?_ (leads_bind gateClosed_leads fun _ => leads_pure false)
  refine leads_bind hwait fun _ => ?_
  refine leads_bind ((read_quiet _).calm.leads balanced_counts) fun signals => ?_
  refine leads_bind ((replaySignals_quiet signals).calm.leads balanced_counts) fun _ => ?_
  exact leads_bind hwait fun _ => leads_pure true

theorem reopenDelivery_leads : Leads held Balanced Balanced reopenDelivery := by
  have hwrite : ∀ {f : Process → Process}, (∀ s, Unmoved s (f s)) →
      Leads held Balanced Balanced (write f) := fun h => leads_write fun s hs => hs.unmoved (h s)
  refine leads_bind (hwrite fun _ => ⟨rfl, rfl⟩) fun _ => ?_
  refine leads_tryExcept (leads_bind resumeConsumers_leads fun _ => ?_) abandonResumption_leads
  exact leads_bind (hwrite fun _ => ⟨rfl, rfl⟩) fun _ => leads_pure true

theorem attemptDurableRecovery_leads : Leads held Balanced Balanced attemptDurableRecovery := by
  have hread : ∀ {held : List Region} {ρ : Type} (f : Process → ρ),
      Leads held Balanced Balanced (read f) :=
    fun f => (read_quiet f).calm.leads balanced_counts
  have hpending : ∀ {held : List Region}, Leads held Balanced Balanced resetIfPending := by
    intro held
    refine leads_bind (hread _) fun pending => ?_
    split
    · exact resetDurableBroker_leads
    · exact leads_pure true
  refine leads_bind (hread _) fun possible => ?_
  split
  · exact leads_pure false
  · refine leads_withPauseLock balanced_counts (leads_bind hpending fun reset => ?_)
    split
    · exact leads_pure false
    · have hprobe : Quiet (wait .probeDurableSchema) := only_wait trivial
      refine leads_bind (hprobe.calm.leads balanced_counts) fun schema => ?_
      split
      · exact leads_bind gateClosed_leads fun _ => leads_pure false
      · refine leads_bind replayFailedSignals_leads fun replayed => ?_
        split
        · exact leads_pure false
        · exact reopenDelivery_leads

/-! ## Startup -/

theorem connectAtStartup_quiet (attempts : Nat) : Quiet (connectAtStartup attempts) := by
  induction attempts with
  | zero => trivial
  | succ attempts ih =>
    refine only_bind (read_quiet _) fun shutdown => ?_
    split
    · trivial
    · have hconnect : Quiet (tryExcept
          (do
            let connection ← rpc .connect
            write fun s => { s with activeConnection := some connection }
            pure (some connection))
          (pure none)) := by
        refine tryExcept_only (only_bind (rpc_quiet fun _ => rfl) fun connection => ?_) trivial
        exact only_bind (only_write fun _ => ⟨rfl, rfl, rfl, rfl, rfl, rfl⟩) fun _ => trivial
      refine only_bind hconnect fun connection? => ?_
      cases connection? with
      | some connection => trivial
      | none =>
        have hsleep : Quiet (wait .sleep) := only_wait trivial
        cases attempts with
        | zero => trivial
        | succ attempts => exact only_bind hsleep fun _ => ih

/-- Nothing is tracked for the types still to subscribe. -/
def Unsubscribed (types : List DataType) (s : Process) : Prop :=
  Balanced s ∧ ∀ t ∈ types, s.consumerTags t = none

theorem unsubscribed_counts (types : List DataType) : Counts (Unsubscribed types) := by
  intro s s' hmove hs
  refine ⟨hs.1.unmoved hmove, fun t ht => ?_⟩
  rw [hmove.consumerTags]
  exact hs.2 t ht

theorem subscribeAll_leads {types : List DataType} (hnodup : types.Nodup) :
    Leads held (Unsubscribed types) Balanced (subscribeAll types) := by
  induction types with
  | nil => exact triple_pure fun s hs => hs.1
  | cons t types ih =>
    obtain ⟨hfresh, hnodup⟩ := List.nodup_cons.1 hnodup
    have hrest : ∀ s, Unsubscribed (t :: types) s → Unsubscribed types s :=
      fun s hs => ⟨hs.1, fun t' ht' => hs.2 t' (List.mem_cons_of_mem _ ht')⟩
    have hstart : Leads held (Unsubscribed (t :: types)) (Unsubscribed types) (startTracked t) := by
      have hI := unsubscribed_counts (t :: types)
      refine triple_bind ((startConsumer_calm t).leads hI) (fun tag => leads_write fun s hs => ?_) fun _ s hs => hrest s hs
      refine ⟨hs.1.trackTag (hs.2 t List.mem_cons_self), fun t' ht' => ?_⟩
      have hne : t' ≠ t := fun heq => hfresh (heq ▸ ht')
      have htag : (s.trackTag t tag).consumerTags t' = s.consumerTags t' :=
        s.setTag_of_ne (some tag) hne
      rw [htag]
      exact hs.2 t' (List.mem_cons_of_mem _ ht')
    exact triple_bind hstart (fun _ => ih hnodup) fun _ _ hs => hs.1

theorem startup_leads : Leads held (Unsubscribed typeOrder) Balanced startup := by
  have hI := unsubscribed_counts typeOrder
  have hquiet : ∀ {α : Type} {p : Lifecycle α}, Quiet p →
      Leads held (Unsubscribed typeOrder) (Unsubscribed typeOrder) p := fun hp => hp.calm.leads hI
  have hwrite : ∀ {f : Process → Process}, (∀ s, Untouched s (f s)) →
      Leads held (Unsubscribed typeOrder) (Unsubscribed typeOrder) (write f) :=
    fun h => write_leads h hI
  refine triple_bind (hquiet (connectAtStartup_quiet 5)) (fun connection? => ?_) fun _ s hs => hs.1
  cases connection? with
  | none => exact triple_pure fun s hs => hs.1
  | some connection =>
    refine triple_bind (hquiet (rpc_quiet fun _ => rfl)) (fun number => ?_) fun _ s hs => hs.1
    refine triple_bind (hwrite fun _ => ⟨rfl, rfl, rfl, rfl, rfl, rfl⟩) (fun _ => ?_)
      fun _ s hs => hs.1
    refine triple_bind (hquiet (rpc_quiet fun _ => rfl)) (fun _ => ?_) fun _ s hs => hs.1
    refine triple_bind (hwrite fun _ => ⟨rfl, rfl, rfl, rfl, rfl, rfl⟩) (fun _ => ?_)
      fun _ s hs => hs.1
    refine triple_bind (hquiet (declareQueues_quiet typeOrder)) (fun _ => ?_) fun _ s hs => hs.1
    refine triple_bind (hquiet (read_quiet _)) (fun subscribes => ?_) fun _ s hs => hs.1
    exact triple_when (subscribeAll_leads (by decide)) fun s hs => hs.1

/-! ## Every run of operations -/

theorem finishing_leads (hp : Leads held Balanced Balanced p) :
    Leads held Balanced Balanced (finishing p) :=
  leads_bind hp fun _ => leads_pure ()

theorem operation_leads (operation : Operation) :
    Leads [] (fun s => Balanced s ∧ operation.starts s) Balanced (operations.program operation) := by
  have hany : ∀ {p : Lifecycle Unit}, Leads [] Balanced Balanced p →
      Leads [] (fun s => Balanced s ∧ operation.starts s) Balanced p :=
    fun hp => hp.mono (fun _ hs => hs.1) fun _ _ hs => hs
  cases operation with
  | startup =>
    refine startup_leads.mono (fun s hs => ⟨hs.1, fun t ht => ?_⟩) fun _ _ hs => hs
    have htagged := hs.2
    simp only [Operation.starts, Process.tagged, List.any_eq_false, Option.not_isSome_iff_eq_none] at htagged
    exact htagged t ht
  | completionTimer t queue tag => exact hany (cancelAfterDelay_leads t queue tag)
  | cancelAllConsumers => exact hany cancelAllConsumers_leads
  | pauseDurableConsumers t version => exact hany (finishing_leads (pauseDurableConsumers_leads t version))
  | resetDurableBroker => exact hany (finishing_leads resetDurableBroker_leads)
  | attemptDurableRecovery => exact hany (finishing_leads attemptDurableRecovery_leads)
  | recoverDataType t => exact hany (finishing_leads (recoverDataType_leads t))
  | recoverParkedMarkers => exact hany recoverParkedMarkers_leads
  | closeRecoveryBroker => exact hany (finishing_leads closeRecoveryBroker_leads)
  | recoverConsumers => exact hany recoverConsumers_leads

end

/-- The gauge is the number of tracked consumers whenever no operation is under way. -/
theorem gauge_matches_tags {s : Process} {l : Loader} (htags : ∀ t, s.consumerTags t = none)
    (hgauge : s.consumersActive = 0)
    (hrun : EventLoop.Run operations (EventLoop.OneByOne Operation.starts) ⟨s, []⟩ l)
    (hidle : l.Idle) : l.shared.consumersActive = l.shared.tagItems.length := by
  have hstart : Balanced s := by rw [Balanced, hgauge, tagItems_of_untagged htags]; rfl
  have hkept := EventLoop.run_settled outside_unmoved balanced_counts
    (fun operation s hstarts hs =>
      sound_mono (operation_leads operation s ⟨hs, hstarts⟩) fun _ _ _ hr => hr.2)
    (.none hstart) hrun
  exact hkept.idle hidle

/-- The process as it starts. -/
def launched : Process :=
  { attached with
    consumerTags := fun _ => none
    deliveryChannels := fun _ => none
    queues := fun _ => none
    activeConnection := none
    activeChannel := none
    broker := ⟨[], [], [], 0⟩
    consumersActive := 0 }

/-- A call the broker never gets. -/
def refused : Choice := { smoothly with acted := false }

/-- Startup, then a shutdown whose second cancellation fails. -/
def partialShutdown : List (LoopEvent Operation Choice Happening) :=
  .start .startup :: List.replicate 86 (.answer 0 smoothly) ++
    .start .cancelAllConsumers :: List.replicate 2 (.answer 1 smoothly) ++
    List.replicate 2 (.answer 1 refused)

theorem gauge_matches_tags_shutdown :
    ∃ l : Loader, EventLoop.Run operations (EventLoop.OneByOne Operation.starts) ⟨launched, []⟩ l ∧
      l.shared.consumersActive = 3 ∧ l.shared.consumersActive = l.shared.tagItems.length := by
  have heval : (runWhile (EventLoop.step operations) (EventLoop.OneByOne Operation.starts)
      (⟨launched, []⟩ : Loader) partialShutdown).map
        (fun l => (l.shared.consumersActive, decide l.Idle)) = some (3, true) := by
    decide +kernel
  obtain ⟨l, hl, hgauge⟩ := Option.map_eq_some_iff.1 heval
  have hidle : l.Idle := of_decide_eq_true (congrArg Prod.snd hgauge)
  have hrun := runOf_of_runWhile _ _ hl
  exact ⟨l, hrun, congrArg Prod.fst hgauge, gauge_matches_tags (fun _ => rfl) rfl hrun hidle⟩

end Tableinator.Consumers
