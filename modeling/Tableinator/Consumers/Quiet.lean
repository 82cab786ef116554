import Tableinator.Consumers.Lifecycle

/-! # Quiet routines

Most of the lifecycle talks to the broker and rearranges channels and queues.  Such a
routine touches neither the tags and their gauge nor the pause, so whatever is known of
these holds after it. -/

namespace Tableinator.Consumers

open Effect Effect.Program Effect.Routine

/-- Not the answer that completes `_start_consumer`. -/
def Wait.Plain : {ρ : Type} → Wait ρ → Prop
  | _, .reply request _ => request.starts = false
  | _, _ => True

/-- The tags, the gauge, the pause and the history are as before. -/
structure Untouched (s s' : Process) : Prop where
  consumerTags : s'.consumerTags = s.consumerTags
  consumersActive : s'.consumersActive = s.consumersActive
  active : s'.durableRefreshActive = s.durableRefreshActive
  paused : s'.durableRefreshPaused = s.durableRefreshPaused
  returned : s'.pauseReturned = s.pauseReturned
  started : s'.startedWhilePaused = s.startedWhilePaused

/-- A routine that starts nothing and touches none of these. -/
abbrev Quiet {α : Type} (p : Lifecycle α) : Prop := p.Only (TaskOp.Within Untouched Wait.Plain)

/-- A routine that touches none of these, and may start a consumer. -/
abbrev Calm {α : Type} (p : Lifecycle α) : Prop :=
  p.Only (TaskOp.Within Untouched fun _ => True)

theorem Untouched.refl (s : Process) : Untouched s s := ⟨rfl, rfl, rfl, rfl, rfl, rfl⟩

/-- A coarser view of the steps of a routine. -/
theorem within_mono {α : Type} {change change' : Process → Process → Prop}
    {plain plain' : ∀ {ρ : Type}, Wait ρ → Prop} {p : Lifecycle α}
    (h : p.Only (TaskOp.Within change plain)) (hchange : ∀ s s', change s s' → change' s s')
    (hplain : ∀ {ρ : Type} (w : Wait ρ), plain w → plain' w) :
    p.Only (TaskOp.Within change' plain') := by
  refine Only.mono h fun op hop => ?_
  cases op with
  | sync f => exact fun s => hchange s _ (hop s)
  | wait w => exact hplain w hop
  | enter κ test result => exact hop
  | leave result => exact hop
  | acquire κ result => exact hop

theorem Quiet.calm {α : Type} {p : Lifecycle α} (h : Quiet p) : Calm p :=
  within_mono h (fun _ _ h => h) fun _ _ => trivial

theorem read_quiet {ρ : Type} (f : Process → ρ) : Quiet (read f) :=
  only_read Untouched.refl f

theorem rpc_quiet {request : Rpc} (h : ∀ r, (Wait.reply request r).Plain) : Quiet (rpc request) :=
  rpc_only trivial h

theorem confirmed_quiet {request : Rpc} (h : ∀ r, (Wait.reply request r).Plain) :
    Quiet (confirmed request) :=
  tryExcept_only (only_bind (rpc_quiet h) fun _ => trivial) trivial

theorem closeEach_quiet (channels : List Channel) : Quiet (closeEach channels) := by
  induction channels with
  | nil => trivial
  | cons channel channels ih => exact only_bind (rpc_quiet fun _ => rfl) fun _ => ih

theorem closeChannels_quiet (channels : List Channel) : Quiet (closeChannels channels) := by
  refine only_bind (closeEach_quiet channels) fun _ => only_bind (only_write ?_) fun _ => trivial
  exact fun _ => ⟨rfl, rfl, rfl, rfl, rfl, rfl⟩

theorem closeTransport_quiet (connection : Option Connection) (channels : List Channel) :
    Quiet (closeTransport connection channels) := by
  refine tryExcept_only ?_ ?_
  · cases connection with
    | none => exact closeChannels_quiet channels
    | some connection =>
      refine only_bind (rpc_quiet fun _ => rfl) fun _ => only_bind (only_write ?_) fun _ => trivial
      exact fun _ => ⟨rfl, rfl, rfl, rfl, rfl, rfl⟩
  · split
    · trivial
    · exact tryExcept_only (closeChannels_quiet channels) trivial

theorem cancellationFailed_quiet : Quiet cancellationFailed :=
  only_write fun _ => ⟨rfl, rfl, rfl, rfl, rfl, rfl⟩

theorem closeEachQuietly_quiet (channels : List Channel) : Quiet (closeEachQuietly channels) := by
  induction channels with
  | nil => trivial
  | cons channel channels ih =>
    exact only_bind (confirmed_quiet fun _ => rfl) fun _ => only_bind ih fun _ => trivial

theorem closeRecoveryTransport_quiet (connection : Option Connection) (channels : List Channel) :
    Quiet (closeRecoveryTransport connection channels) := by
  refine only_tryCatch (only_bind (closeEachQuietly_quiet channels) fun channelClosed => ?_) ?_
  · cases connection with
    | some connection => exact only_bind (rpc_quiet fun _ => rfl) fun _ => trivial
    | none =>
      cases channelClosed with
      | true => trivial
      | false => exact only_bind cancellationFailed_quiet fun _ => trivial
  · intro e
    cases e with
    | cancelled => exact only_bind cancellationFailed_quiet fun _ => trivial
    | exception name => exact only_bind cancellationFailed_quiet fun _ => trivial

theorem onActiveChannel_quiet {request : Channel → Rpc}
    (h : ∀ channel r, (Wait.reply (request channel) r).Plain) : Quiet (onActiveChannel request) := by
  refine only_bind (read_quiet _) fun channel? => ?_
  cases channel? with
  | none => trivial
  | some channel => exact only_bind (rpc_quiet (h channel)) fun _ => trivial

theorem queuesWithMessages_quiet (channel : Channel) (types : List DataType) :
    Quiet (queuesWithMessages channel types) := by
  induction types with
  | nil => trivial
  | cons t types ih =>
    exact only_bind (rpc_quiet fun _ => rfl) fun _ => only_bind ih fun _ => trivial

theorem declareQueues_quiet (types : List DataType) : Quiet (declareQueues types) := by
  induction types with
  | nil => trivial
  | cons t types ih =>
    refine only_bind (onActiveChannel_quiet fun _ _ => rfl) fun _ => ?_
    refine only_bind (onActiveChannel_quiet fun _ _ => rfl) fun _ => ?_
    refine only_bind (onActiveChannel_quiet fun _ _ => rfl) fun _ => ?_
    refine only_bind (rpc_quiet fun _ => rfl) fun _ => ?_
    refine only_bind (onActiveChannel_quiet fun _ _ => rfl) fun _ => ?_
    refine only_bind (rpc_quiet fun _ => rfl) fun _ => ?_
    exact only_bind (only_write fun _ => ⟨rfl, rfl, rfl, rfl, rfl, rfl⟩) fun _ => ih

theorem queueDepth_quiet (t : DataType) : Quiet (queueDepth t) := by
  refine only_bind (read_quiet _) fun connection? => ?_
  cases connection? with
  | none => trivial
  | some connection =>
    refine tryExcept_only (only_bind (rpc_quiet fun _ => rfl) fun number => ?_) trivial
    refine only_ensuring (tryExcept_only ?_ trivial) ?_
    · exact only_bind (rpc_quiet fun _ => rfl) fun _ => trivial
    · exact only_bind (confirmed_quiet fun _ => rfl) fun _ => trivial

theorem cancelTap_quiet (t : DataType) (tag : Tag) : Quiet (cancelTap t tag) := by
  refine only_bind (read_quiet _) fun queue? => ?_
  cases queue? with
  | none => trivial
  | some queue => exact confirmed_quiet fun _ => rfl

theorem replaySignals_quiet (signals : List (DataType × String)) : Quiet (replaySignals signals) := by
  induction signals with
  | nil => trivial
  | cons signal signals ih =>
    refine only_bind (read_quiet _) fun admission => ?_
    split
    · trivial
    · exact only_bind (only_wait trivial) fun _ => ih

theorem closeOldChannel_quiet (t : DataType) (channel? : Option Channel) :
    Quiet (closeOldChannel t channel?) := by
  cases channel? with
  | none => trivial
  | some channel =>
    refine tryExcept_only (only_bind (rpc_quiet fun _ => rfl) fun _ => trivial) ?_
    refine only_bind (read_quiet _) fun closed => ?_
    split
    · trivial
    · exact only_bind (only_write fun _ => ⟨rfl, rfl, rfl, rfl, rfl, rfl⟩) fun _ => trivial

theorem startConsumer_calm (t : DataType) : Calm (startConsumer t) := by
  have hrpc : ∀ request, Calm (rpc request) := fun _ => rpc_only trivial fun _ => trivial
  have hwrite : ∀ {f : Process → Process}, (∀ s, Untouched s (f s)) → Calm (write f) := only_write
  have hchannel : Calm (deliveryChannel t) := by
    refine only_bind (read_quiet _).calm fun open? => ?_
    cases open? with
    | some channel => trivial
    | none =>
      refine only_bind (read_quiet _).calm fun connection? => ?_
      cases connection? with
      | none => trivial
      | some connection =>
        refine only_bind (hrpc _) fun number => only_bind (hrpc _) fun _ => ?_
        exact only_bind (hwrite fun _ => ⟨rfl, rfl, rfl, rfl, rfl, rfl⟩) fun _ => trivial
  refine only_bind hchannel fun channel => only_bind (hrpc _) fun _ => ?_
  exact only_bind (hwrite fun _ => ⟨rfl, rfl, rfl, rfl, rfl, rfl⟩) fun _ => hrpc _

end Tableinator.Consumers
