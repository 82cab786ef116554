import Tableinator.Consumers.Quiet

/-! # The pause

While durable consumption is paused no consumer may start.  The pause lock keeps the
resumption out of a pause, and the gate keeps a recovery function from starting during
one; but a recovery function tests the gate once and then awaits the broker, so one that
is past its gate when the flag is set subscribes in the middle of the pause. -/

namespace Tableinator.Consumers

open Effect Effect.Program Effect.Routine

/-! ## What tasks do to the pause -/

/-- Tags are only lost, and a set flag stays set. -/
structure Quieter (s s' : Process) : Prop where
  tags : ∀ t, s'.consumerTags t = s.consumerTags t ∨ s'.consumerTags t = none
  paused : s.durableRefreshPaused = true → s'.durableRefreshPaused = true

/-- The mode and the history are as before. -/
structure Steady (s s' : Process) : Prop where
  active : s'.durableRefreshActive = s.durableRefreshActive
  returned : s'.pauseReturned = s.pauseReturned
  started : s'.startedWhilePaused = s.startedWhilePaused

def Subdued (s s' : Process) : Prop := Quieter s s' ∧ Steady s s'

theorem Quieter.refl (s : Process) : Quieter s s := ⟨fun _ => .inl rfl, id⟩

theorem Quieter.trans {s s₁ s₂ : Process} (h : Quieter s s₁) (h' : Quieter s₁ s₂) :
    Quieter s s₂ where
  tags t := by
    cases h'.tags t with
    | inl heq => rw [heq]; exact h.tags t
    | inr hnone => exact .inr hnone
  paused hp := h'.paused (h.paused hp)

theorem Subdued.of_eq {s s' : Process} (htags : s'.consumerTags = s.consumerTags)
    (hpaused : s'.durableRefreshPaused = s.durableRefreshPaused) (hsteady : Steady s s') :
    Subdued s s' :=
  ⟨⟨fun t => .inl (congrFun htags t), fun h => hpaused.trans h⟩, hsteady⟩

/-- A pause that has returned stands: the flag is set and nothing consumes. -/
structure PauseKept (s : Process) : Prop where
  active : s.durableRefreshActive = true
  paused : s.pauseReturned = true → s.durableRefreshPaused = true
  tags : s.pauseReturned = true → ∀ t, s.consumerTags t = none
  started : s.startedWhilePaused = false

/-- A pause holds the lock below it. -/
def Locked (held : List Region) : Prop :=
  ∀ later earlier, held = later ++ .pausing :: earlier → .pauseLock ∈ earlier

structure PauseWorld (σ : Nat → List Region) (s : Process) : Prop where
  exclusive : ∀ i j, .pauseLock ∈ σ i → .pauseLock ∈ σ j → i = j
  locked : ∀ i, Locked (σ i)
  pausing : ∀ i, .pausing ∈ σ i → s.durableRefreshPaused = true ∧ ∀ j, .recovering ∉ σ j
  returned : s.pauseReturned = true → ∀ j, .recovering ∉ σ j

/-- No other task is past the gate of a recovery function when a pause sets its flag. -/
def PausesAlone (κ : Region) (others : List (List Region)) : Prop :=
  κ = .pausing → ∀ held ∈ others, .recovering ∉ held

instance (κ : Region) (others : List (List Region)) : Decidable (PausesAlone κ others) :=
  inferInstanceAs (Decidable (κ = .pausing → ∀ held ∈ others, .recovering ∉ held))

def pauseDiscipline : Discipline Process Region Choice Wait where
  inv := PauseKept
  rely held s s' :=
    (.pausing ∈ held → Quieter s s') ∧
    (.recovering ∈ held ∨ .pauseLock ∈ held → s'.pauseReturned = true → s.pauseReturned = true)
  guar held s s' :=
    (.pausing ∈ held ∨ (.pauseLock ∉ held ∧ .recovering ∉ held) → Quieter s s') ∧
    (.pausing ∉ held → s'.pauseReturned = true → s.pauseReturned = true)
  opens
    | .pauseLock, _, _ => False
    | .pausing, held, s =>
      .pauseLock ∈ held ∧ .recovering ∉ held ∧ s.durableRefreshPaused = true
    | .recovering, _, s => s.gateOpen = true
    | .closing, _, _ => True
  entry _ _ _ := True
  exit _ _ := True
  locks κ := κ = .pauseLock
  world := PauseWorld
  admits := PausesAlone
  fair _ _ _ := True

theorem Locked.pauseLock_mem {held : List Region} (h : Locked held) (hp : .pausing ∈ held) :
    .pauseLock ∈ held := by
  obtain ⟨later, earlier, rfl⟩ := List.append_of_mem hp
  exact List.mem_append_right _ (List.mem_cons_of_mem _ (h later earlier rfl))

theorem Locked.tail {held : List Region} (h : Locked held) : Locked held.tail := by
  intro later earlier htail
  cases held with
  | nil => cases later <;> cases htail
  | cons κ held => exact h (κ :: later) earlier (congrArg (κ :: ·) htail)

theorem Locked.cons {held : List Region} {κ : Region} (h : Locked held)
    (hκ : κ = .pausing → .pauseLock ∈ held) : Locked (κ :: held) := by
  intro later earlier heq
  cases later with
  | nil =>
    cases heq
    exact hκ rfl
  | cons κ' later =>
    cases heq
    exact h later earlier rfl

/-- A pause in progress and another task: the other does not recover and has no lock. -/
theorem PauseWorld.quiet {σ : Nat → List Region} {s : Process} (hw : PauseWorld σ s) {i j : Nat}
    (hij : i ≠ j) (hp : .pausing ∈ σ j) : .pauseLock ∉ σ i ∧ .recovering ∉ σ i := by
  refine ⟨fun hi => hij ?_, (hw.pausing j hp).2 i⟩
  exact hw.exclusive i j hi ((hw.locked j).pauseLock_mem hp)

theorem PauseKept.subdued {s s' : Process} (hk : PauseKept s) (h : Subdued s s') : PauseKept s' where
  active := h.2.active.trans hk.active
  paused hr := h.1.paused (hk.paused (h.2.returned ▸ hr))
  tags hr t := by
    cases h.1.tags t with
    | inl heq => rw [heq]; exact hk.tags (h.2.returned ▸ hr) t
    | inr hnone => exact hnone
  started := h.2.started.trans hk.started

theorem Subdued.guar {s s' : Process} (h : Subdued s s') (held : List Region) :
    pauseDiscipline.guar held s s' :=
  ⟨fun _ => h.1, fun _ hr => h.2.returned ▸ hr⟩

theorem happen_subdued (env : Happening) (s : Process) : Subdued s (happen env s) := by
  cases env with
  | files completed signalled => exact .of_eq rfl rfl ⟨rfl, rfl, rfl⟩
  | subscriptionLost tag => exact .of_eq rfl rfl ⟨rfl, rfl, rfl⟩
  | channelLost channel => exact .of_eq rfl rfl ⟨rfl, rfl, rfl⟩
  | shutdown => exact .of_eq rfl rfl ⟨rfl, rfl, rfl⟩

/-- An open gate means that no pause stands or is in progress. -/
theorem PauseKept.not_paused {s : Process} (hk : PauseKept s) (hopen : s.gateOpen = true) :
    s.durableRefreshPaused = false := by
  simp only [Process.gateOpen, hk.active, Bool.true_and, Bool.not_or, Bool.not_not,
    Bool.and_eq_true, Bool.not_eq_true'] at hopen
  exact hopen.1

theorem PauseKept.not_returned {s : Process} (hk : PauseKept s) (hopen : s.gateOpen = true) :
    s.pauseReturned = false := by
  cases hr : s.pauseReturned with
  | false => rfl
  | true =>
    have hpaused := hk.paused hr
    rw [hk.not_paused hopen] at hpaused
    cases hpaused

section

variable {σ : Nat → List Region} {i : Nat} {s s' : Process}

theorem PauseWorld.guar (hw : PauseWorld σ s) (h : pauseDiscipline.guar (σ i) s s') :
    PauseWorld σ s' where
  exclusive := hw.exclusive
  locked := hw.locked
  pausing j hj := by
    refine ⟨?_, (hw.pausing j hj).2⟩
    have hpaused := (hw.pausing j hj).1
    by_cases hij : i = j
    · subst hij
      exact (h.1 (.inl hj)).paused hpaused
    · exact (h.1 (.inr (hw.quiet hij hj))).paused hpaused
  returned hr := by
    by_cases hi : .pausing ∈ σ i
    · exact (hw.pausing i hi).2
    · exact hw.returned (h.2 hi hr)

theorem PauseWorld.rely (hw : PauseWorld σ s) {j : Nat} (hij : i ≠ j)
    (h : pauseDiscipline.guar (σ i) s s') : pauseDiscipline.rely (σ j) s s' := by
  constructor
  · intro hj
    exact h.1 (.inr (hw.quiet hij hj))
  · intro hj
    refine h.2 fun hi => ?_
    cases hj with
    | inl hrecovering => exact (hw.pausing i hi).2 j hrecovering
    | inr hlock => exact (hw.quiet (Ne.symm hij) hi).1 hlock

theorem PauseWorld.leave (hw : PauseWorld σ s) : PauseWorld (Function.update σ i (σ i).tail) s := by
  have hsub : ∀ j κ, κ ∈ Function.update σ i (σ i).tail j → κ ∈ σ j := by
    intro j κ hκ
    by_cases hj : j = i
    · subst hj
      rw [Function.update_self] at hκ
      exact List.mem_of_mem_tail hκ
    · rwa [Function.update_of_ne hj] at hκ
  refine ⟨?_, ?_, ?_, ?_⟩
  · exact fun j k hj hk => hw.exclusive j k (hsub _ _ hj) (hsub _ _ hk)
  · intro j
    by_cases hj : j = i
    · subst hj
      rw [Function.update_self]
      exact (hw.locked j).tail
    · rw [Function.update_of_ne hj]
      exact hw.locked j
  · intro j hj
    obtain ⟨hpaused, hrecovering⟩ := hw.pausing j (hsub _ _ hj)
    exact ⟨hpaused, fun k hk => hrecovering k (hsub _ _ hk)⟩
  · exact fun hr k hk => hw.returned hr k (hsub _ _ hk)

/-- A section that leaves the lock and the pauses alone. -/
theorem PauseWorld.push (hw : PauseWorld σ s) {κ : Region}
    (hlock : κ = .pauseLock → ∀ j, j ≠ i → .pauseLock ∉ σ j)
    (hpausing : κ = .pausing → .pauseLock ∈ σ i ∧ s.durableRefreshPaused = true ∧
      ∀ j, .recovering ∉ σ j)
    (hrecovering : κ = .recovering → s.pauseReturned = false ∧ ∀ j, .pausing ∉ σ j) :
    PauseWorld (Function.update σ i (κ :: σ i)) s := by
  have hmem : ∀ j κ', κ' ∈ Function.update σ i (κ :: σ i) j → (j = i ∧ κ' = κ) ∨ κ' ∈ σ j := by
    intro j κ' hκ'
    by_cases hj : j = i
    · subst hj
      rw [Function.update_self] at hκ'
      cases hκ' with
      | head => exact .inl ⟨rfl, rfl⟩
      | tail _ hκ' => exact .inr hκ'
    · rw [Function.update_of_ne hj] at hκ'
      exact .inr hκ'
  have hclear : κ ≠ .recovering → (∀ j, .recovering ∉ σ j) →
      ∀ j, .recovering ∉ Function.update σ i (κ :: σ i) j := by
    intro hκ hold j hj
    cases hmem j _ hj with
    | inl h => exact hκ h.2.symm
    | inr h => exact hold j h
  -- one holder of the lock, pauses inside it, no recovery beside a pause or after one
  refine ⟨?_, ?_, ?_, ?_⟩
  · intro j k hj hk
    cases hmem j _ hj with
    | inl hj' =>
      cases hmem k _ hk with
      | inl hk' => rw [hj'.1, hk'.1]
      | inr hk' =>
        by_contra hne
        exact hlock hj'.2.symm k (fun h => hne (hj'.1.trans h.symm)) hk'
    | inr hj' =>
      cases hmem k _ hk with
      | inl hk' =>
        by_contra hne
        exact hlock hk'.2.symm j (fun h => hne (h.trans hk'.1.symm)) hj'
      | inr hk' => exact hw.exclusive j k hj' hk'
  · intro j
    by_cases hj : j = i
    · subst hj
      rw [Function.update_self]
      exact (hw.locked j).cons fun h => (hpausing h).1
    · rw [Function.update_of_ne hj]
      exact hw.locked j
  · intro j hj
    cases hmem j _ hj with
    | inl h =>
      obtain ⟨_, hpaused, hclear'⟩ := hpausing h.2.symm
      exact ⟨hpaused, hclear (fun hκ => by cases h.2.trans hκ) hclear'⟩
    | inr h =>
      obtain ⟨hpaused, hclear'⟩ := hw.pausing j h
      exact ⟨hpaused, hclear (fun hκ => (hrecovering hκ).2 j h) hclear'⟩
  · intro hr
    refine hclear (fun hκ => ?_) (hw.returned hr)
    rw [(hrecovering hκ).1] at hr
    cases hr

end

theorem pauseDiscipline_lawful : pauseDiscipline.Lawful machine.react where
  rely_refl held s := ⟨fun _ => .refl s, fun _ h => h⟩
  rely_trans held s s₁ s₂ h h' :=
    ⟨fun hp => (h.1 hp).trans (h'.1 hp), fun hm hr => h.2 hm (h'.2 hm hr)⟩
  rely_of_guar σ i j s s' _ _ hw hij h := PauseWorld.rely hw hij h
  world_of_guar σ i s s' _ _ hw h := PauseWorld.guar hw h
  enter σ i κ others s hinv hw hbeside hadmits hopens := by
    refine ⟨trivial, hw.push ?_ ?_ ?_⟩
    · rintro rfl
      exact absurd hopens id
    · rintro rfl
      obtain ⟨hlock, hself, hpaused⟩ := hopens
      refine ⟨hlock, hpaused, fun j => ?_⟩
      by_cases hj : j = i
      · subst hj
        exact hself
      · cases hbeside j hj with
        | inl hnil => rw [hnil]; exact List.not_mem_nil
        | inr hmem => exact hadmits rfl _ hmem
    · rintro rfl
      refine ⟨hinv.not_returned hopens, fun j hj => ?_⟩
      have hpaused := (hw.pausing j hj).1
      rw [hinv.not_paused hopens] at hpaused
      cases hpaused
  acquire σ i κ others s _ hw _ _ hlocks hfree := by
    cases hlocks
    refine ⟨trivial, hw.push (fun _ => hfree) ?_ ?_⟩
    · intro h
      cases h
    · intro h
      cases h
  leave σ i s _ hw _ := hw.leave
  inv_react env s hinv := PauseKept.subdued hinv (happen_subdued env s)
  world_react σ env s _ hw := PauseWorld.guar (i := 0) hw ((happen_subdued env s).guar _)
  rely_react held env s _ := by
    have h := happen_subdued env s
    exact ⟨fun _ => h.1, fun _ hr => h.2.returned ▸ hr⟩

/-! ## Routines that start nothing -/

/-- An answer leaves tags and flags alone; only the one that completes `_start_consumer`
    is noted, and not unless a pause stands. -/
theorem perform_subdued {choice : Choice} {s s' : Process} {ρ : Type} {w : Wait ρ}
    {reply : Except Failure ρ} (h : perform choice s w = some (reply, s'))
    (hplain : w.Plain ∨ s.pauseReturned = false) : Subdued s s' := by
  have hsame : Subdued s s := .of_eq rfl rfl ⟨rfl, rfl, rfl⟩
  cases w with
  | act request =>
    simp only [perform] at h
    split at h
    · cases h
      exact .of_eq rfl rfl ⟨rfl, rfl, rfl⟩
    · cases h
      exact hsame
  | reply request result =>
    cases h
    split
    · next hcompletes =>
      have hreturned : s.pauseReturned = false := by
        refine hplain.resolve_left fun hstarts => ?_
        have hstarts : request.starts = false := hstarts
        simp [hstarts] at hcompletes
      exact .of_eq rfl rfl ⟨rfl, rfl, by simp [Process.noteStart, hreturned]⟩
    · exact hsame
  | sleep => cases h; exact hsame
  | lostConsumerTypes => cases h; exact hsame
  | probeDurableSchema => cases h; exact hsame
  | reconcileLegacyLatches => cases h; exact hsame
  | recordDurableSignal t version => cases h; exact hsame
  | readRefreshHealth => cases h; exact hsame

/-- A routine that loses tags at most. -/
abbrev Hushed {α : Type} (p : Lifecycle α) : Prop := p.Only (TaskOp.Within Subdued Wait.Plain)

theorem Untouched.steady {s s' : Process} (h : Untouched s s') : Steady s s' :=
  ⟨h.active, h.returned, h.started⟩

theorem Quiet.hushed {α : Type} {p : Lifecycle α} (h : Quiet p) : Hushed p :=
  within_mono h (fun _ _ h => .of_eq h.consumerTags h.paused h.steady) fun _ h => h

theorem read_hushed {ρ : Type} (f : Process → ρ) : Hushed (read f) := (read_quiet f).hushed

theorem rpc_hushed {request : Rpc} (h : ∀ r, (Wait.reply request r).Plain) : Hushed (rpc request) :=
  (rpc_quiet h).hushed

theorem cancellationFailed_hushed : Hushed cancellationFailed := cancellationFailed_quiet.hushed

theorem untrackTag_subdued (t : DataType) (s : Process) : Subdued s (s.untrackTag t) := by
  refine ⟨⟨fun t' => ?_, id⟩, rfl, rfl, rfl⟩
  by_cases ht : t' = t
  · subst ht
    exact .inr (Function.update_self t' _ _)
  · exact .inl (Function.update_of_ne ht _ _)

theorem resetDurableBroker_hushed : Hushed resetDurableBroker := by
  refine only_bind (read_hushed _) fun connection => only_bind (read_hushed _) fun channels => ?_
  refine only_bind (read_hushed _) fun tagged => ?_
  split
  · trivial
  · refine only_bind (closeTransport_quiet connection channels).hushed fun closed => ?_
    split
    · trivial
    · refine only_bind (only_write fun s => ?_) fun _ => trivial
      exact ⟨⟨fun _ => .inr rfl, id⟩, rfl, rfl, rfl⟩

theorem resetUncertain_hushed : Hushed resetUncertain := by
  refine only_bind (only_write fun _ => .of_eq rfl rfl ⟨rfl, rfl, rfl⟩) fun _ => ?_
  exact only_bind resetDurableBroker_hushed fun _ => trivial

theorem closeRecoveryBroker_hushed : Hushed closeRecoveryBroker := by
  refine only_bind (read_hushed _) fun connection => only_bind (read_hushed _) fun channels => ?_
  split
  · refine only_bind (read_hushed _) fun tagged => ?_
    split
    · exact only_bind cancellationFailed_hushed fun _ => trivial
    · trivial
  · refine only_bind (closeRecoveryTransport_quiet connection channels).hushed fun closed => ?_
    split
    · trivial
    · refine only_bind (only_write fun s => ?_) fun _ => trivial
      exact ⟨⟨fun _ => .inr rfl, id⟩, rfl, rfl, rfl⟩

theorem openRecoveryTransport_hushed : Hushed openRecoveryTransport := by
  have hwrite : ∀ {f : Process → Process}, (∀ s, Subdued s (f s)) → Hushed (write f) := only_write
  refine only_tryCatch ?_ fun e => ?_
  · refine only_bind (rpc_hushed fun _ => rfl) fun connection => ?_
    refine only_bind (hwrite fun _ => .of_eq rfl rfl ⟨rfl, rfl, rfl⟩) fun _ => ?_
    refine only_bind (rpc_hushed fun _ => rfl) fun number => ?_
    exact only_bind (hwrite fun _ => .of_eq rfl rfl ⟨rfl, rfl, rfl⟩) fun _ => trivial
  · cases e with
    | cancelled => exact only_bind cancellationFailed_hushed fun _ => trivial
    | exception name => exact only_bind closeRecoveryBroker_hushed fun _ => trivial

theorem cancelPartial_hushed (items : List (DataType × Tag)) : Hushed (cancelPartial items) := by
  induction items with
  | nil => trivial
  | cons item items ih =>
    refine only_bind (cancelTap_quiet item.1 item.2).hushed fun cancelled => ?_
    refine only_bind (when_only (only_write (untrackTag_subdued item.1))) fun _ => ?_
    exact only_bind ih fun _ => trivial

theorem gateClosed_hushed : Hushed (write Process.gateClosed) :=
  only_write fun _ => ⟨⟨fun _ => .inl rfl, fun _ => rfl⟩, rfl, rfl, rfl⟩

theorem abandonResumption_hushed : Hushed abandonResumption := by
  refine only_bind gateClosed_hushed fun _ => only_bind (read_hushed _) fun items => ?_
  refine only_bind (cancelPartial_hushed items) fun uncertain => ?_
  exact only_bind (when_only resetUncertain_hushed) fun _ => trivial

theorem replayFailedSignals_hushed : Hushed replayFailedSignals := by
  refine tryExcept_only ?_ (only_bind gateClosed_hushed fun _ => trivial)
  refine only_bind (only_wait trivial) fun _ => only_bind (read_hushed _) fun signals => ?_
  refine only_bind (replaySignals_quiet signals).hushed fun _ => ?_
  exact only_bind (only_wait trivial) fun _ => trivial

theorem resetIfPending_hushed : Hushed resetIfPending := by
  refine only_bind (read_hushed _) fun pending => ?_
  split
  · exact resetDurableBroker_hushed
  · trivial

/-! ## Routines that start consumers -/

/-- A routine that leaves the mode and the history alone. -/
abbrev Level {α : Type} (p : Lifecycle α) : Prop :=
  p.Only (TaskOp.Within Steady fun _ => True)

theorem Hushed.level {α : Type} {p : Lifecycle α} (h : Hushed p) : Level p :=
  within_mono h (fun _ _ h => h.2) fun _ _ => trivial

theorem Calm.level {α : Type} {p : Lifecycle α} (h : Calm p) : Level p :=
  within_mono h (fun _ _ h => h.steady) fun _ _ => trivial

theorem startTracked_level (t : DataType) : Level (startTracked t) :=
  only_bind (startConsumer_calm t).level fun _ => only_write fun _ => ⟨rfl, rfl, rfl⟩

theorem startOrDrop_level (t : DataType) : Level (startOrDrop t) := by
  refine tryExcept_only (only_bind (startTracked_level t) fun _ => trivial) ?_
  exact only_bind (only_write fun _ => ⟨rfl, rfl, rfl⟩) fun _ => trivial

theorem startAllMissing_level (backlog types : List DataType) :
    Level (startAllMissing backlog types) := by
  have hmissing : ∀ t, Level (startMissing backlog t) := by
    intro t
    refine only_bind (read_hushed _).level fun missing => when_only ?_
    refine only_bind (startTracked_level t) fun _ => when_only ?_
    exact only_write fun _ => ⟨rfl, rfl, rfl⟩
  induction types with
  | nil => trivial
  | cons t types ih => exact only_bind (hmissing t) fun _ => ih

theorem restartConsumers_level (channel : Channel) : Level (restartConsumers channel) := by
  refine only_bind (queuesWithMessages_quiet channel typeOrder).calm.level fun backlog => ?_
  refine only_bind (read_hushed _).level fun incomplete => ?_
  split
  · refine only_bind (@onActiveChannel_quiet .setQos fun _ _ => rfl).calm.level fun _ => ?_
    refine only_bind (only_write fun _ => ⟨rfl, rfl, rfl⟩) fun _ => ?_
    refine only_bind (declareQueues_quiet typeOrder).calm.level fun _ => ?_
    exact startAllMissing_level backlog typeOrder
  · exact only_bind closeRecoveryBroker_hushed.level fun _ => trivial

theorem replaceTransport_level : Level replaceTransport := by
  refine only_bind closeRecoveryBroker_hushed.level fun closed => ?_
  split
  · trivial
  · refine only_bind openRecoveryTransport_hushed.level fun channel? => ?_
    cases channel? with
    | none => trivial
    | some channel =>
      refine only_tryCatch (restartConsumers_level channel) fun e => ?_
      cases e with
      | cancelled => exact only_bind cancellationFailed_hushed.level fun _ => trivial
      | exception name => exact only_bind closeRecoveryBroker_hushed.level fun _ => trivial

theorem replaceConsumer_level (t : DataType) : Level (replaceConsumer t) := by
  refine only_bind (read_hushed _).level fun oldChannel => ?_
  refine only_bind (only_write fun _ => ⟨rfl, rfl, rfl⟩) fun _ => ?_
  refine only_bind (read_hushed _).level fun oldTag => ?_
  refine only_bind (closeOldChannel_quiet t oldChannel).calm.level fun closed => ?_
  split
  · trivial
  · refine only_bind (when_only (only_write fun _ => ⟨rfl, rfl, rfl⟩)) fun _ => ?_
    refine only_bind (read_hushed _).level fun connection => ?_
    split
    · trivial
    · exact startOrDrop_level t

theorem resubscribeAllParked_level (types : List DataType) : Level (resubscribeAllParked types) := by
  have hparked : ∀ t, Level (resubscribeParked t) := by
    intro t
    refine only_bind (queueDepth_quiet t).calm.level fun depth => ?_
    refine only_bind (read_hushed _).level fun skip => when_only ?_
    exact only_bind (startOrDrop_level t) fun _ => trivial
  induction types with
  | nil => trivial
  | cons t types ih => exact only_bind (hparked t) fun _ => ih

theorem resumeTypes_level (types : List DataType) : Level (resumeTypes types) := by
  induction types with
  | nil => trivial
  | cons t types ih =>
    refine only_bind (read_hushed _).level fun missing => ?_
    exact only_bind (when_only (startTracked_level t)) fun _ => ih

/-! ## Routines under the discipline -/

/-- A routine that keeps the discipline of the pause, and an assertion with it. -/
abbrev Keeps (stop : Option Failure) (held : List Region) (I : Process → Prop) {α : Type}
    (p : Lifecycle α) : Prop :=
  Triple machine pauseDiscipline stop held I p fun _ => I

section

variable {stop : Option Failure} {α β : Type} {held : List Region} {I : Process → Prop}

theorem keeps_pure (a : α) : Keeps stop held I (pure a) := triple_pure fun _ hI => hI

theorem keeps_raise (e : Failure) : Keeps stop held I (.raise e : Lifecycle α) :=
  triple_raise fun _ hI => hI

theorem keeps_bind {p : Lifecycle α} {f : α → Lifecycle β} (hp : Keeps stop held I p)
    (hf : ∀ a, Keeps stop held I (f a)) : Keeps stop held I (p >>= f) :=
  triple_bind hp hf fun _ _ hI => hI

theorem keeps_tryExcept {p handler : Lifecycle α} (hp : Keeps stop held I p)
    (hh : Keeps stop held I handler) : Keeps stop held I (tryExcept p handler) :=
  triple_tryExcept hp (fun _ _ hI => hI) (fun _ => hh) fun _ hI => hI

theorem keeps_when {condition : Bool} {p : Lifecycle Unit} (hp : Keeps stop held I p) :
    Keeps stop held I (when condition p) :=
  triple_when hp fun _ hI => hI

theorem Hushed.keeps {p : Lifecycle α} (h : Hushed p) : Keeps stop held PauseKept p := by
  refine triple_of_within ?_ (fun _ _ _ _ hinv => hinv) ?_ h
  · intro s s' hk hchange
    have hk' := hk.subdued hchange
    exact ⟨hk', hchange.guar held, hk'⟩
  · intro ρ w choice s reply s' hplain hk _ hperform
    have hchange := perform_subdued hperform (.inl hplain)
    have hk' := hk.subdued hchange
    exact ⟨hk', hchange.guar held, hk'⟩

/-- No pause stands. -/
structure Lifted (s : Process) : Prop where
  kept : PauseKept s
  returned : s.pauseReturned = false

/-- A task that may start consumers: past a gate, or resuming with the lock. -/
structure MayStart (held : List Region) : Prop where
  region : .recovering ∈ held ∨ .pauseLock ∈ held
  pausing : .pausing ∉ held

theorem Lifted.steady {s s' : Process} (hl : Lifted s) (h : Steady s s') : Lifted s' := by
  have hreturned : s'.pauseReturned = false := h.returned.trans hl.returned
  refine ⟨⟨h.active.trans hl.kept.active, ?_, ?_, h.started.trans hl.kept.started⟩, hreturned⟩
  · intro hr
    rw [hreturned] at hr
    cases hr
  · intro hr
    rw [hreturned] at hr
    cases hr

theorem MayStart.guar (hm : MayStart held) {s s' : Process}
    (h : s'.pauseReturned = true → s.pauseReturned = true) : pauseDiscipline.guar held s s' := by
  refine ⟨fun hquiet => ?_, fun _ => h⟩
  cases hquiet with
  | inl hpausing => exact absurd hpausing hm.pausing
  | inr hneither =>
    cases hm.region with
    | inl h => exact absurd h hneither.2
    | inr h => exact absurd h hneither.1

theorem MayStart.rely (hm : MayStart held) {s s' : Process} (hl : Lifted s)
    (h : pauseDiscipline.rely held s s') (hk : PauseKept s') : Lifted s' := by
  refine ⟨hk, ?_⟩
  cases hr : s'.pauseReturned with
  | false => rfl
  | true =>
    have hback := h.2 hm.region hr
    rw [hl.returned] at hback
    cases hback

theorem Level.keeps {p : Lifecycle α} (h : Level p) (hm : MayStart held) :
    Keeps stop held Lifted p := by
  refine triple_of_within ?_ (fun _ _ hl hrely hinv => hm.rely hl hrely hinv) ?_ h
  · intro s s' hl hchange
    have hl' := hl.steady hchange
    exact ⟨hl'.kept, hm.guar fun hr => hchange.returned ▸ hr, hl'⟩
  · intro ρ w choice s reply s' _ hl _ hperform
    have hchange := (perform_subdued hperform (.inr hl.returned)).2
    have hl' := hl.steady hchange
    exact ⟨hl'.kept, hm.guar fun hr => hchange.returned ▸ hr, hl'⟩

/-- Behind the gate no pause stands. -/
theorem recovering_keeps {closed : α} {body : Lifecycle α} (hI : ∀ s, I s → PauseKept s)
    (hlifted : ∀ s, Lifted s → I s) (hbody : Keeps stop (.recovering :: held) Lifted body) :
    Keeps stop held I (recovering closed body) := by
  intro s hs
  have hk := hI s hs
  have hbody' := hbody.mono (fun _ h => h) fun _ => hlifted
  refine sound_bind ⟨fun hopen => ⟨hopen, fun _ => ?_⟩, fun _ => ⟨rfl, hs⟩⟩
  exact hbody'.leaving (fun _ _ _ => trivial) ⟨hk, hk.not_returned hopen⟩

theorem closing_keeps {body : Lifecycle α} (h : Hushed body) :
    Keeps stop held PauseKept (closing body) := by
  intro s hk
  refine sound_bind ⟨fun _ => ⟨trivial, fun _ => ?_⟩, fun h => nomatch h⟩
  exact h.keeps.leaving (fun _ _ _ => trivial) hk

theorem withPauseLock_keeps {body : Lifecycle α}
    (h : Keeps stop (.pauseLock :: held) PauseKept body) :
    Keeps stop held PauseKept (withPauseLock body) := by
  intro s _
  refine sound_bind ⟨rfl, fun s₁ _ hk₁ => ⟨fun _ => ?_, fun e _ => ⟨rfl, hk₁⟩⟩⟩
  exact h.leaving (fun _ _ _ => trivial) hk₁

/-! ## The tasks -/

theorem mayStart_recovering (hpausing : .pausing ∉ held) : MayStart (.recovering :: held) :=
  ⟨.inl List.mem_cons_self, by simpa using hpausing⟩

theorem mayStart_pauseLock : MayStart [.pauseLock] := ⟨.inr List.mem_cons_self, by simp⟩

theorem recoverConsumers_keeps (hpausing : .pausing ∉ held) (hI : ∀ s, I s → PauseKept s)
    (hlifted : ∀ s, Lifted s → I s) : Keeps stop held I recoverConsumers :=
  recovering_keeps hI hlifted (replaceTransport_level.keeps (mayStart_recovering hpausing))

theorem recoverDataType_keeps (t : DataType) : Keeps stop [] PauseKept (recoverDataType t) :=
  recovering_keeps (fun _ h => h) (fun _ h => h.kept)
    ((replaceConsumer_level t).keeps (mayStart_recovering (by simp)))

theorem recoverEach_keeps (types : List DataType) : Keeps stop [] PauseKept (recoverEach types) := by
  induction types with
  | nil => exact keeps_pure true
  | cons t types ih =>
    exact keeps_bind (recoverDataType_keeps t) fun _ => keeps_bind ih fun _ => keeps_pure _

theorem recoverParkedMarkers_keeps : Keeps stop [] PauseKept recoverParkedMarkers := by
  refine keeps_bind (read_hushed _).keeps fun pending => ?_
  refine keeps_bind (read_hushed _).keeps fun shutdown => ?_
  split
  · exact keeps_pure ()
  · refine recovering_keeps (fun _ h => h) (fun _ h => h.kept) ?_
    have hm := mayStart_recovering (show .pausing ∉ ([] : List Region) by simp)
    refine keeps_bind ((read_hushed _).level.keeps hm) fun connection => ?_
    split
    · exact recoverConsumers_keeps (by simp) (fun _ h => h.kept) fun _ h => h
    · exact (resubscribeAllParked_level pending).keeps hm

theorem checkStuck_keeps (clock : Clock) : Keeps stop [] PauseKept (checkStuck clock) := by
  have hrecover : Keeps stop [] PauseKept recoverConsumers :=
    recoverConsumers_keeps (by simp) (fun _ h => h) fun _ h => h.kept
  have hlost : Hushed (wait .lostConsumerTypes) := only_wait trivial
  refine keeps_bind hlost.keeps fun lost => ?_
  split
  · exact keeps_bind (recoverEach_keeps _) fun _ => keeps_when hrecover
  · refine keeps_bind (read_hushed _).keeps fun dead => ?_
    split
    · exact hrecover
    · exact keeps_when (keeps_bind (read_hushed _).keeps fun _ => keeps_when hrecover)

theorem queueCheck_keeps : Keeps stop [] PauseKept queueCheck := by
  have hrecover : Keeps stop [] PauseKept recoverConsumers :=
    recoverConsumers_keeps (by simp) (fun _ h => h) fun _ h => h.kept
  have hsleep : Hushed (wait .sleep) := only_wait trivial
  refine keeps_tryExcept (keeps_bind hsleep.keeps fun clock => ?_) (keeps_pure ())
  refine keeps_bind (read_hushed _).keeps fun opened => keeps_when ?_
  refine keeps_bind (read_hushed _).keeps fun failed => ?_
  split
  · exact keeps_bind (closing_keeps resetDurableBroker_hushed) fun _ => keeps_when hrecover
  · exact keeps_bind recoverParkedMarkers_keeps fun _ => keeps_when (checkStuck_keeps clock)

theorem resumeConsumers_keeps : Keeps stop [.pauseLock] Lifted resumeConsumers := by
  have hread : ∀ {ρ : Type} (f : Process → ρ), Keeps stop [.pauseLock] Lifted (read f) :=
    fun f => (read_hushed f).level.keeps mayStart_pauseLock
  have hresubscribe : Keeps stop [.pauseLock] Lifted resubscribe := by
    refine keeps_bind (hread _) fun attached => ?_
    split
    · refine keeps_bind (hread _) fun types => ?_
      exact (resumeTypes_level types).keeps mayStart_pauseLock
    · exact recoverConsumers_keeps (by simp) (fun _ h => h.kept) fun _ h => h
  exact keeps_bind hresubscribe fun _ => keeps_bind (hread _) fun _ => keeps_when (keeps_raise _)

/-- Recovery lifts the pause before it starts anything. -/
theorem reopenDelivery_keeps : Keeps stop [.pauseLock] PauseKept reopenDelivery := by
  intro s hk
  have hlifted : Lifted s.gateOpened :=
    ⟨⟨hk.active, fun h => (by cases h), fun h => (by cases h), hk.started⟩, rfl⟩
  have hopen : Keeps stop [.pauseLock] Lifted (tryExcept
      (do
        resumeConsumers
        write fun s => { s with durableRefreshRecoverySignals := [], durableRefreshResumeTypes := ∅ }
        pure true)
      abandonResumption) := by
    refine keeps_tryExcept (keeps_bind resumeConsumers_keeps fun _ => ?_) ?_
    · refine Level.keeps ?_ mayStart_pauseLock
      exact only_bind (only_write fun _ => ⟨rfl, rfl, rfl⟩) fun _ => trivial
    · exact abandonResumption_hushed.level.keeps mayStart_pauseLock
  refine sound_bind (sound_write hlifted.kept (mayStart_pauseLock.guar fun h => by cases h) ?_)
  exact sound_mono (hopen _ hlifted) fun _ _ _ h => ⟨h.1, h.2.kept⟩

theorem recoveryRound_keeps : Keeps stop [] PauseKept recoveryRound := by
  have hprobe : Hushed (wait .probeDurableSchema) := only_wait trivial
  refine keeps_tryExcept (keeps_bind (read_hushed _).keeps fun due => keeps_when ?_) (keeps_pure ())
  refine keeps_bind (keeps_bind (read_hushed _).keeps fun possible => ?_) fun _ => keeps_pure ()
  split
  · exact keeps_pure false
  · refine withPauseLock_keeps ?_
    refine keeps_bind resetIfPending_hushed.keeps fun reset => ?_
    split
    · exact keeps_pure false
    · refine keeps_bind hprobe.keeps fun schema => ?_
      split
      · exact keeps_bind gateClosed_hushed.keeps fun _ => keeps_pure false
      · refine keeps_bind replayFailedSignals_hushed.keeps fun replayed => ?_
        split
        · exact keeps_pure false
        · exact reopenDelivery_keeps

/-! ### The pause itself -/

/-- In a pause with only the taps of these types left open. -/
structure Tapped (types : List DataType) (s : Process) : Prop where
  kept : PauseKept s
  paused : s.durableRefreshPaused = true
  left : ∀ t, s.consumerTags t ≠ none → t ∈ types

theorem Tapped.quieter {types : List DataType} {s s' : Process} (h : Tapped types s)
    (hquiet : Quieter s s') (hk : PauseKept s') : Tapped types s' := by
  refine ⟨hk, hquiet.paused h.paused, fun t ht => ?_⟩
  cases hquiet.tags t with
  | inl heq => exact h.left t (heq ▸ ht)
  | inr hnone => exact absurd hnone ht

theorem Hushed.tapped {types : List DataType} {p : Lifecycle α} (h : Hushed p)
    (hpausing : .pausing ∈ held) : Keeps stop held (Tapped types) p := by
  refine triple_of_within ?_ (fun _ _ hs hrely hk => hs.quieter (hrely.1 hpausing) hk) ?_ h
  · intro s s' hs hchange
    have hk := hs.kept.subdued hchange
    exact ⟨hk, hchange.guar held, hs.quieter hchange.1 hk⟩
  · intro ρ w choice s reply s' hplain hs _ hperform
    have hchange := perform_subdued hperform (.inl hplain)
    have hk := hs.kept.subdued hchange
    exact ⟨hk, hchange.guar held, hs.quieter hchange.1 hk⟩

theorem cancelEach_pauses (items : List (DataType × Tag)) :
    Triple machine pauseDiscipline stop [.pausing, .pauseLock] (Tapped (items.map Prod.fst))
      (cancelEach items) fun _ => PauseKept := by
  have hpausing : .pausing ∈ [Region.pausing, Region.pauseLock] := List.mem_cons_self
  induction items with
  | nil =>
    refine triple_write_bind (fun s hs => ?_) (keeps_pure true)
    have htags : ∀ t, s.consumerTags t = none := by
      intro t
      by_contra h
      exact absurd (hs.left t h) List.not_mem_nil
    have hk : PauseKept { s with pauseReturned := true } :=
      ⟨hs.kept.active, fun _ => hs.paused, fun _ => htags, hs.kept.started⟩
    exact ⟨hk, ⟨fun _ => ⟨fun _ => .inl rfl, id⟩, fun h => absurd hpausing h⟩, hk⟩
  | cons item items ih =>
    refine triple_bind ((cancelTap_quiet item.1 item.2).hushed.tapped hpausing) ?_ fun _ _ h => h.kept
    intro cancelled
    cases cancelled with
    | false =>
      have hreset : Keeps stop [.pausing, .pauseLock] PauseKept
          (resetUncertain >>= fun _ => pure false) :=
        keeps_bind resetUncertain_hushed.keeps fun _ => keeps_pure false
      exact hreset.mono (fun _ h => h.kept) fun _ _ h => h
    | true =>
      refine triple_write_bind (fun s hs => ?_) ih
      have hchange := untrackTag_subdued item.1 s
      have hk := hs.kept.subdued hchange
      refine ⟨hk, hchange.guar _, hk, hs.paused, fun t ht => ?_⟩
      have hne : t ≠ item.1 := by
        intro heq
        subst heq
        exact ht (Function.update_self item.1 _ _)
      have hopen : s.consumerTags t ≠ none := by
        intro hnone
        exact ht ((Function.update_of_ne hne _ _).trans hnone)
      exact (List.mem_cons.1 (hs.left t hopen)).resolve_left hne

theorem mem_tagItems {s : Process} {t : DataType} (h : s.consumerTags t ≠ none) :
    t ∈ s.tagItems.map Prod.fst := by
  obtain ⟨tag, htag⟩ := Option.ne_none_iff_exists'.1 h
  refine List.mem_map.2 ⟨(t, tag), List.mem_filterMap.2 ⟨t, ?_, by simp [htag]⟩, rfl⟩
  cases t <;> simp [typeOrder]

theorem pauseDurableConsumers_keeps (t : DataType) (version : String) :
    Keeps stop [] PauseKept (pauseDurableConsumers t version) := by
  have htaps : Triple machine pauseDiscipline stop [.pausing, .pauseLock]
      (fun s => PauseKept s ∧ s.durableRefreshPaused = true) (read Process.tagItems >>= cancelEach)
      fun _ => PauseKept := by
    refine triple_read_bind (fun s hs => ⟨hs.1, Subdued.guar (.of_eq rfl rfl ⟨rfl, rfl, rfl⟩) _⟩) ?_
    intro items
    refine (cancelEach_pauses items).mono (fun s hs => ⟨hs.1.1, hs.1.2, ?_⟩) fun _ _ h => h
    rw [← hs.2]
    exact fun _ => mem_tagItems
  refine withPauseLock_keeps fun s hk => ?_
  have hchange : Subdued s (s.pause t version) := ⟨⟨fun _ => .inl rfl, fun _ => rfl⟩, rfl, rfl, rfl⟩
  have hk' := hk.subdued hchange
  refine sound_bind (sound_write hk' (hchange.guar _) ?_)
  refine sound_bind ⟨fun _ => ⟨⟨List.mem_cons_self, by simp, rfl⟩, fun _ => ?_⟩, fun h => nomatch h⟩
  exact htaps.leaving (fun _ _ _ => trivial) ⟨hk', rfl⟩

theorem cancelConsumer_keeps (t : DataType) (queue : Channel) (tag : Tag) :
    Keeps stop [] PauseKept (cancelConsumer t queue tag) := by
  have hcancel : Hushed (rpc (.cancel queue tag)) := rpc_hushed fun _ => rfl
  have hdelete : Hushed (write fun s => if s.consumerTags t = some tag then s.untrackTag t else s) := by
    refine only_write fun s => ?_
    split
    · exact untrackTag_subdued t s
    · exact .of_eq rfl rfl ⟨rfl, rfl, rfl⟩
  refine keeps_bind hcancel.keeps fun _ => keeps_bind hdelete.keeps fun _ => ?_
  refine keeps_bind (read_hushed _).keeps fun idle => keeps_when ?_
  exact keeps_bind (closing_keeps closeRecoveryBroker_hushed) fun _ => keeps_pure ()

theorem cancelAfterDelay_keeps (t : DataType) (queue : Channel) (tag : Tag) :
    Keeps stop [] PauseKept (cancelAfterDelay t queue tag) := by
  refine keeps_bind (read_hushed _).keeps fun current => ?_
  refine keeps_when (triple_tryCatch (cancelConsumer_keeps t queue tag) (fun _ _ h => h) fun e => ?_)
  cases e with
  | cancelled => exact keeps_bind cancellationFailed_hushed.keeps fun _ => keeps_raise _
  | exception name => exact cancellationFailed_hushed.keeps

theorem scheduleConsumerCancellation_keeps (t : DataType) :
    Keeps stop [] PauseKept (scheduleConsumerCancellation t) := by
  have hsleep : Hushed (wait .sleep) := only_wait trivial
  refine keeps_bind (read_hushed _).keeps fun queue? => ?_
  cases queue? with
  | none => exact keeps_pure ()
  | some queue =>
    refine keeps_bind (read_hushed _).keeps fun tag? => keeps_bind hsleep.keeps fun _ => ?_
    cases tag? with
    | none => exact keeps_pure ()
    | some tag => exact cancelAfterDelay_keeps t queue tag

end

theorem job_sound (job : Job) (s : Process) (hk : PauseKept s) :
    Sound machine pauseDiscipline (machine.interrupt job) (machine.program job)
      (fun _ _ _ => True) [] s := by
  have hdone : ∀ {p : Lifecycle Unit}, Keeps (machine.interrupt job) [] PauseKept p →
      Sound machine pauseDiscipline (machine.interrupt job) p (fun _ _ _ => True) [] s :=
    fun h => sound_mono (h s hk) fun _ _ _ _ => trivial
  cases job with
  | queueCheck => exact hdone queueCheck_keeps
  | recoveryRound => exact hdone recoveryRound_keeps
  | pause t version =>
    exact hdone (keeps_bind (pauseDurableConsumers_keeps t version) fun _ => keeps_pure ())
  | completionTimer t => exact hdone (scheduleConsumerCancellation_keeps t)

/-! ## Runs -/

/-- A process in durable mode before its first task, with no pause standing. -/
structure Starts (l : Loader) : Prop where
  tasks : l.tasks = []
  active : l.shared.durableRefreshActive = true
  returned : l.shared.pauseReturned = false
  started : l.shared.startedWhilePaused = false

theorem Starts.kept {l : Loader} (h : Starts l) : l.Kept machine pauseDiscipline := by
  have hreturned : ∀ {P : Prop}, l.shared.pauseReturned = true → P := by
    intro P hr
    rw [h.returned] at hr
    cases hr
  have hsections : ∀ i, l.sections i = [] := by
    intro i
    simp [EventLoop.sections, h.tasks]
  refine ⟨⟨h.active, hreturned, hreturned, h.started⟩, ⟨?_, ?_, ?_, hreturned⟩, ?_⟩
  · intro i j hi
    rw [hsections i] at hi
    cases hi
  · intro i later earlier heq
    rw [hsections i] at heq
    cases later <;> cases heq
  · intro i hi
    rw [hsections i] at hi
    cases hi
  · intro i task hi
    simp [h.tasks] at hi

/-- From the moment a pause returned `True` until recovery lifts the flag nothing starts
    and no tag is tracked, if no recovery function is past its gate when a pause sets the
    flag. -/
theorem paused_loader_consumes_nothing {l l' : Loader} (hstart : Starts l)
    (hrun : EventLoop.Run machine (EventLoop.Admits machine PausesAlone fun _ _ _ => True) l l') :
    l'.shared.startedWhilePaused = false ∧
      (l'.shared.pauseReturned = true → ∀ t, l'.shared.consumerTags t = none) := by
  have hkept := EventLoop.run_kept pauseDiscipline_lawful job_sound hstart.kept hrun
  exact ⟨hkept.inv.started, hkept.inv.tags⟩

/-! ### The window behind the gate -/

/-- Connected, the labels consumed, and the artists' consumer cancelled after their file. -/
def attached : Process where
  consumerTags t := if t = .labels then some 3 else none
  deliveryChannels t := if t = .labels then some ⟨0, 2⟩ else none
  queues t := some (if t = .labels then ⟨0, 2⟩ else ⟨0, 1⟩)
  activeConnection := some 0
  activeChannel := some ⟨0, 1⟩
  consumerCancellationFailed := false
  completedFiles := {.artists}
  extractionSignalled := ∅
  durableRefreshActive := true
  durableRefreshPaused := false
  durableRefreshReady := true
  durableRefreshBrokerResetPending := false
  durableRefreshResumeTypes := ∅
  durableRefreshRecoverySignals := []
  shutdownRequested := false
  connectionPool := true
  writeAdmission := true
  broker := ⟨[0], [⟨0, 1⟩, ⟨0, 2⟩], [⟨3, ⟨0, 2⟩, .labels⟩], 4⟩
  consumersActive := 1
  pauseReturned := false
  startedWhilePaused := false

/-- Every call succeeds, with one message in the queue. -/
def smoothly : Choice := ⟨true, true, 1, ⟨false, false⟩, ∅, true⟩

def answers (index calls : Nat) : List (LoopEvent Job Choice Happening) :=
  List.replicate calls (.answer index smoothly)

/-- What the runs below are about. -/
def outlook (l : Loader) : Bool × Bool × List (Option Tag) :=
  (l.shared.pauseReturned, l.shared.startedWhilePaused, typeOrder.map l.shared.consumerTags)

/-- A pause, and a check of the queues during it. -/
def checkAfterPause : List (LoopEvent Job Choice Happening) :=
  .start (.pause .labels "20240101") :: answers 0 3 ++ .start .queueCheck :: answers 1 1

theorem paused_loader_consumes_nothing_checked :
    ∃ l' : Loader, EventLoop.Run machine
        (EventLoop.Admits machine PausesAlone fun _ _ _ => True) ⟨attached, []⟩ l' ∧
      outlook l' = (true, false, [none, none, none, none]) ∧
      l'.shared.startedWhilePaused = false ∧
      (l'.shared.pauseReturned = true → ∀ t, l'.shared.consumerTags t = none) := by
  have heval : (runWhile (EventLoop.step machine)
      (EventLoop.Admits machine PausesAlone fun _ _ _ => True) (⟨attached, []⟩ : Loader)
      checkAfterPause).map outlook = some (true, false, [none, none, none, none]) := by
    decide +kernel
  obtain ⟨l', hl', houtlook⟩ := Option.map_eq_some_iff.1 heval
  have hrun := runOf_of_runWhile _ _ hl'
  have hstart : Starts (⟨attached, []⟩ : Loader) := ⟨rfl, rfl, rfl, rfl⟩
  exact ⟨l', hrun, houtlook, paused_loader_consumes_nothing hstart hrun⟩

/-- The checker is past the gate of `recover_parked_markers` and reads the depth of the
    artists' queue when the pause takes the lock. -/
def pauseBehindGate : List (LoopEvent Job Choice Happening) :=
  .start .queueCheck :: answers 0 1 ++ .start (.pause .labels "20240101") :: answers 1 3 ++
    answers 0 14

theorem pause_behind_gate_starts_consumer :
    ∃ l' : Loader, EventLoop.Run machine (fun _ _ => True) ⟨attached, []⟩ l' ∧
      l'.shared.pauseReturned = true ∧ l'.shared.startedWhilePaused = true ∧
      l'.shared.consumerTags .artists ≠ none := by
  have heval : (runWhile (EventLoop.step machine) (fun _ _ => True) (⟨attached, []⟩ : Loader)
      pauseBehindGate).map outlook = some (true, true, [some 6, none, none, none]) := by
    decide +kernel
  obtain ⟨l', hl', houtlook⟩ := Option.map_eq_some_iff.1 heval
  refine ⟨l', runOf_of_runWhile _ _ hl', congrArg (·.1) houtlook, congrArg (·.2.1) houtlook, ?_⟩
  have hartists : l'.shared.consumerTags .artists = some 6 := by
    simpa [outlook, typeOrder] using congrArg (·.2.2.head?) houtlook
  rw [hartists]
  exact Option.some_ne_none 6

end Tableinator.Consumers
