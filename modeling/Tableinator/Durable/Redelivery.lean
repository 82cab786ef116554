import Tableinator.Durable.EffectOrder

/-! # Returning a terminal signal to the broker

A requeued signal comes back at once while its consumer is subscribed.  The handler
requeues for three reasons: the flush gave up, the purge or the record of a veto failed,
or the handoff failed.  Only the last pauses the consumers first, and the second may
fail on what the message says. -/

namespace Tableinator.Durable

open Effect Effect.Program

/-! ## What becomes of the delivery -/

/-- The consumer was cancelled with confirmation. -/
@[simp] def confirms (t : DataType) : {ρ : Type} → TerminalCall ρ → Except Failure ρ → Bool
  | _, .inr (.cancelConsumer t'), reply => t' == t && returned reply
  | _, _, _ => false

/-- `nack(requeue=False)`. -/
@[simp] def rejects : {ρ : Type} → TerminalCall ρ → Except Failure ρ → Bool
  | _, .inl (.inl (.nack requeue)), reply => !requeue && returned reply
  | _, _, _ => false

/-- `nack(requeue=True)` was called. -/
@[simp] def requeues : {ρ : Type} → TerminalCall ρ → Except Failure ρ → Bool
  | _, .inl (.inl (.nack requeue)), _ => requeue
  | _, _, _ => false

/-- What a trace made of the delivery; `unpaused` says that it was requeued before some
    consumer was confirmed cancelled. -/
structure Fate where
  acked : Bool
  rejected : Bool
  requeued : Bool
  confirmed : DataType → Bool
  unpaused : Bool

namespace Fate

def undecided : Fate := ⟨false, false, false, fun _ => false, false⟩

@[simp] def next (tags : List DataType) (s : Fate) {ρ : Type} (op : TerminalCall ρ)
    (reply : Except Failure ρ) : Fate where
  acked := s.acked || Durable.acked op reply
  rejected := s.rejected || rejects op reply
  requeued := s.requeued || requeues op reply
  confirmed t := s.confirmed t || confirms t op reply
  unpaused := s.unpaused || requeues op reply && !tags.all s.confirmed

theorem after_undecided (tags : List DataType) (trace : List TerminalEntry) :
    (after (Fate.next tags) undecided trace).acked = happened Durable.acked trace ∧
    (after (Fate.next tags) undecided trace).rejected = happened rejects trace ∧
    (after (Fate.next tags) undecided trace).requeued = happened requeues trace ∧
    (after (Fate.next tags) undecided trace).confirmed = (fun t => happened (confirms t) trace) ∧
    ((after (Fate.next tags) undecided trace).unpaused = true ↔
      ∃ before entry rest, trace = before ++ entry :: rest ∧
        requeues entry.op entry.reply = true ∧ ∃ t ∈ tags, happened (confirms t) before = false) := by
  induction trace using List.reverseRecOn with
  | nil => simp [after, undecided]
  | append_singleton trace entry ih =>
    obtain ⟨hacked, hrejected, hrequeued, hconfirmed, hunpaused⟩ := ih
    rw [after, List.foldl_concat, ← after]
    refine ⟨?_, ?_, ?_, ?_, ?_⟩
    · simp only [next, hacked, happened, List.any_append, List.any_cons, List.any_nil,
        Bool.or_false]
    · simp only [next, hrejected, happened, List.any_append, List.any_cons, List.any_nil,
        Bool.or_false]
    · simp only [next, hrequeued, happened, List.any_append, List.any_cons, List.any_nil,
        Bool.or_false]
    · simp only [next, hconfirmed, happened, List.any_append, List.any_cons, List.any_nil,
        Bool.or_false]
    · rw [next, Bool.or_eq_true, hunpaused, hconfirmed, Bool.and_eq_true]
      constructor
      · rintro (⟨before, first, rest, rfl, hfirst⟩ | ⟨hentry, hmissing⟩)
        · exact ⟨before, first, rest ++ [entry], by simp, hfirst⟩
        · refine ⟨trace, entry, [], rfl, hentry, ?_⟩
          simpa only [Bool.not_eq_true', List.all_eq_false, Bool.not_eq_true] using hmissing
      · rintro ⟨before, first, rest, hsplit, hfirst⟩
        rcases List.eq_nil_or_concat rest with rfl | ⟨rest, last, rfl⟩
        · obtain ⟨rfl, hsame⟩ := List.append_inj' hsplit rfl
          cases hsame
          refine Or.inr ⟨hfirst.1, ?_⟩
          simpa only [Bool.not_eq_true', List.all_eq_false, Bool.not_eq_true] using hfirst.2
        · refine Or.inl ⟨before, first, rest, ?_, hfirst⟩
          have hinit : trace ++ [entry] = (before ++ first :: rest) ++ [last] := by
            rw [hsplit]
            simp
          exact (List.append_inj' hinit rfl).1

end Fate

/-- The calls are answered by the circumstances. -/
@[simp] def AnsweredBy (c : Circumstances) {ρ : Type} (op : TerminalCall ρ) (reply : Except Failure ρ) :
    Prop := reply = c.answer op

abbrev EndsIn {α : Type} (c : Circumstances) (p : Terminal α)
    (Q : Fate → Except Failure α → Prop) (s : Fate) : Prop :=
  wpWhen (AnsweredBy c) (fun _ _ _ => True) (Fate.next c.consumerTags) p Q s

/-! ## What the circumstances decide -/

def readsAsVeto : Except Failure Bool → Bool
  | .ok vetoed => vetoed
  | .error _ => true

/-- `purge_veto_reason` finds one. -/
def vetoFound (c : Circumstances) (d : Delivery) : Bool :=
  c.batchProcessor && c.hadDlqNacks || c.deadLettersWaiting != some 0 ||
    (extractionLatchKey d).isSome && (c.connectionPool && c.latchDeclared) &&
      readsAsVeto c.purgeWasVetoed

/-- `persist_purge_veto` returns true. -/
def vetoKeeps (c : Circumstances) (d : Delivery) : Bool :=
  (extractionLatchKey d).isNone || !(c.connectionPool && c.latchDeclared) ||
    c.writeAdmission && returned c.recordPurgeVeto

section

variable (fromisoformat : String → Bool) (data : Document) (dataType : DataType)

/-- The start time a purge of the message parses, if it gets so far. -/
def messagePurge : PurgeStart :=
  match recordCounts data with
  | .obj counts => purgeStart fromisoformat (startedAt data) (Document.get counts (DataType.text dataType))
  | _ => .refused

/-- The purge returns. -/
def purgeReturns (c : Circumstances) : Bool :=
  match messagePurge fromisoformat data dataType with
  | .skipped => !c.connectionPool || c.writeAdmission
  | .refused => !c.connectionPool
  | .parsed _ => !c.connectionPool || c.writeAdmission && returned c.purgeRows

end

/-- The handoff commits the signal. -/
def handOffReturns (c : Circumstances) : Bool :=
  c.connectionPool && c.durableRefreshReady && c.writeAdmission && returned c.recordDurableSignal

/-- Every consumer is known and its cancellation confirmed. -/
def pauseConfirmed (c : Circumstances) : Bool :=
  c.consumerTags.all fun t => c.queueKnown t && returned (c.cancelConsumer t)

/-! ## The parts of the handler -/

section

variable {fromisoformat : String → Bool} {data : Document} {dataType : DataType}
  {c : Circumstances} {s : Fate} (d : Delivery)

theorem recordedVetoReason_ends :
    EndsIn c (overPayload fromisoformat data dataType (recordedVetoReason d))
      (fun s' r => s' = s ∧ ∃ reason, r = .ok reason ∧ reason.isSome =
        ((extractionLatchKey d).isSome && (c.connectionPool && c.latchDeclared) &&
          readsAsVeto c.purgeWasVetoed)) s := by
  unfold recordedVetoReason latchAtHand
  cases extractionLatchKey d with
  | none => simp
  | some version =>
    cases hpool : c.connectionPool with
    | false => simp [hpool]
    | true =>
      cases hdeclared : c.latchDeclared with
      | false => simp [hpool, hdeclared]
      | true =>
        cases hvetoed : c.purgeWasVetoed with
        | error e => simp [hpool, hdeclared, hvetoed, readsAsVeto]
        | ok vetoed => cases vetoed <;> simp [hpool, hdeclared, hvetoed, readsAsVeto]

theorem deadLetterReason_ends :
    EndsIn c (overPayload fromisoformat data dataType (deadLetterReason d c.deadLettersWaiting))
      (fun s' r => s' = s ∧ ∃ reason, r = .ok reason ∧ reason.isSome =
        (c.deadLettersWaiting != some 0 ||
          (extractionLatchKey d).isSome && (c.connectionPool && c.latchDeclared) &&
            readsAsVeto c.purgeWasVetoed)) s := by
  match c.deadLettersWaiting with
  | none => simp [deadLetterReason]
  | some (waiting + 1) => simp [deadLetterReason]
  | some 0 => simpa [deadLetterReason] using recordedVetoReason_ends d

theorem purgeVetoReason_ends :
    EndsIn c (overPayload fromisoformat data dataType (purgeVetoReason d))
      (fun s' r => s' = s ∧ ∃ reason, r = .ok reason ∧ reason.isSome = vetoFound c d) s := by
  have hdead := @deadLetterReason_ends fromisoformat data dataType c s d
  unfold vetoFound
  cases hprocessor : c.batchProcessor with
  | false => simpa [purgeVetoReason, hprocessor] using hdead
  | true =>
    cases hnacked : c.hadDlqNacks with
    | false => simpa [purgeVetoReason, hprocessor, hnacked] using hdead
    | true => simp [purgeVetoReason, hprocessor, hnacked]

theorem persistPurgeVeto_ends :
    EndsIn c (overPayload fromisoformat data dataType (persistPurgeVeto d))
      (fun s' r => s' = s ∧ r = .ok (vetoKeeps c d)) s := by
  unfold persistPurgeVeto vetoKeeps latchAtHand
  cases extractionLatchKey d with
  | none => simp
  | some version =>
    cases hpool : c.connectionPool with
    | false => simp [hpool]
    | true =>
      cases hdeclared : c.latchDeclared with
      | false => simp [hpool, hdeclared]
      | true =>
        cases hadmission : c.writeAdmission with
        | false => simp [hpool, hdeclared, hadmission]
        | true =>
          cases hrecorded : c.recordPurgeVeto with
          | error e => simp [hpool, hdeclared, hadmission, hrecorded]
          | ok _ => simp [hpool, hdeclared, hadmission, hrecorded]

/-- The purge of the message, while there is a pool. -/
theorem purgePayload_ends (hpool : c.connectionPool = true) :
    EndsIn c (purgePayload fromisoformat data dataType)
      (fun s' r => s' = s ∧ returned r = purgeReturns fromisoformat data dataType c) s := by
  unfold purgePayload purgeReturns messagePurge
  cases recordCounts data with
  | obj counts =>
    cases hadmission : c.writeAdmission with
    | false =>
      cases hstart : purgeStart fromisoformat (startedAt data)
          (Document.get counts (DataType.text dataType)) <;>
        simp [purgeStaleRowsOf, hpool, hadmission, hstart]
    | true =>
      cases hstart : purgeStart fromisoformat (startedAt data)
          (Document.get counts (DataType.text dataType)) with
      | skipped => simp [purgeStaleRowsOf, hpool, hadmission, hstart]
      | refused => simp [purgeStaleRowsOf, hpool, hadmission, hstart]
      | parsed startedAt => simp [purgeStaleRowsOf, hpool, hadmission, hstart]
  | _ => simp [hpool]

/-- The step before the handoff: the purge, or the record of what speaks against it. -/
theorem purgeOrVeto_ends (reason : Option String) :
    EndsIn c (overPayload fromisoformat data dataType (purgeOrVeto d reason))
      (fun s' r => s' = s ∧ r = .ok (if reason.isSome then vetoKeeps c d
        else purgeReturns fromisoformat data dataType c)) s := by
  cases reason with
  | some reason => exact persistPurgeVeto_ends d
  | none =>
    cases hpool : c.connectionPool with
    | false =>
      have hreturns : purgeReturns fromisoformat data dataType c = true := by
        unfold purgeReturns
        split <;> simp [hpool]
      simp [purgeOrVeto, hpool, hreturns]
    | true =>
      have hpurge : EndsIn c
          (expand fromisoformat data dataType (.inl (.purgeStaleRows d.startedAt d.recordCount)))
          (fun s' r => s' = s ∧ returned r = purgeReturns fromisoformat data dataType c) s :=
        purgePayload_ends hpool
      simp [purgeOrVeto, hpool]
      refine wpWhen_mono hpurge ?_
      rintro s' r ⟨rfl, hr⟩
      cases r with
      | ok _ => simp [← hr]
      | error e => simp [← hr]

theorem handOff_ends :
    EndsIn c (overPayload fromisoformat data dataType (handOff d))
      (fun s' r => s' = s ∧ r = .ok (handOffReturns c)) s := by
  unfold handOffReturns
  cases hpool : c.connectionPool with
  | false => simp [handOff, hpool]
  | true =>
    cases hready : c.durableRefreshReady with
    | false => simp [handOff, hpool, hready]
    | true =>
      cases hadmission : c.writeAdmission with
      | false => simp [handOff, hpool, hready, hadmission]
      | true =>
        cases hsignal : c.recordDurableSignal with
        | error e => simp [handOff, hpool, hready, hadmission, hsignal]
        | ok signal => simp [handOff, hpool, hready, hadmission, hsignal]

/-- What a pause may change. -/
structure Fate.Pausing (s s' : Fate) : Prop where
  acked : s'.acked = s.acked
  rejected : s'.rejected = s.rejected
  requeued : s'.requeued = s.requeued
  unpaused : s'.unpaused = s.unpaused
  confirmed : ∀ t, s.confirmed t = true → s'.confirmed t = true

/-- The pause returns true only once every consumer is confirmed cancelled. -/
theorem cancelConsumers_ends (tags : List DataType) :
    EndsIn c (cancelConsumers tags)
      (fun s' r => s.Pausing s' ∧
        r = .ok (tags.all fun t => c.queueKnown t && returned (c.cancelConsumer t)) ∧
        (r = .ok true → ∀ t ∈ tags, s'.confirmed t = true)) s := by
  induction tags generalizing s with
  | nil => exact ⟨⟨rfl, rfl, rfl, rfl, fun _ h => h⟩, rfl, by simp⟩
  | cons t rest ih =>
    have hkept : ∀ s' : Fate, s' = s → s.Pausing s' := by
      rintro _ rfl
      exact ⟨rfl, rfl, rfl, rfl, fun _ h => h⟩
    cases hknown : c.queueKnown t with
    | false => simp [cancelConsumers, hknown, hkept]
    | true =>
      cases hcancel : c.cancelConsumer t with
      | error e => simp [cancelConsumers, hknown, hcancel, hkept]
      | ok _ =>
        simp only [cancelConsumers, wpWhen_bind, wpWhen_await, AnsweredBy, Circumstances.answer,
          hknown, hcancel, forall_eq, true_and, Bool.not_true, Bool.false_eq_true, if_false,
          wpWhen_tryCatch, wpWhen_pure, if_true]
        refine wpWhen_mono ih ?_
        rintro s' r ⟨hpausing, hr, hconfirmed⟩
        refine ⟨⟨?_, ?_, ?_, ?_, ?_⟩, ?_, ?_⟩
        · simpa using hpausing.acked
        · simpa using hpausing.rejected
        · simpa using hpausing.requeued
        · simpa using hpausing.unpaused
        · exact fun t' ht' => hpausing.confirmed t' (by simp [ht'])
        · simpa [hknown, hcancel] using hr
        · intro hok t' ht'
          rcases List.mem_cons.1 ht' with rfl | hrest
          · exact hpausing.confirmed t' (by simp)
          · exact hconfirmed hok t' hrest

theorem requeue_ends (version : String) (hnack : ∀ b, c.nack b = .ok ())
    (hquiet : s.requeued = false ∧ s.unpaused = false) :
    EndsIn c (overPayload fromisoformat data dataType (requeue true version))
      (fun s' r => r = .ok () ∧ s'.acked = s.acked ∧ s'.rejected = s.rejected ∧
        s'.requeued = pauseConfirmed c ∧ s'.unpaused = false) s := by
  simp only [requeue, if_true, interp_bind, interp_await, wpWhen_bind, expand,
    pauseDurableConsumers, wpWhen_await, AnsweredBy, Circumstances.answer, forall_eq, true_and]
  refine wpWhen_mono (cancelConsumers_ends c.consumerTags) ?_
  rintro s' r ⟨hpausing, rfl, hconfirmed⟩
  have hacked : s'.acked = s.acked := by simpa using hpausing.acked
  have hrejected : s'.rejected = s.rejected := by simpa using hpausing.rejected
  have hrequeued : s'.requeued = false := by simpa [hquiet] using hpausing.requeued
  have hunpaused : s'.unpaused = false := by simpa [hquiet] using hpausing.unpaused
  cases hpaused : pauseConfirmed c with
  | false =>
    unfold pauseConfirmed at hpaused
    simp only [hpaused, Bool.false_eq_true, if_false]
    exact ⟨rfl, hacked, hrejected, hrequeued, hunpaused⟩
  | true =>
    unfold pauseConfirmed at hpaused
    have hall : c.consumerTags.all s'.confirmed = true := by
      simpa using hconfirmed (by rw [hpaused])
    simp only [hpaused, if_true]
    simp [hnack, hacked, hrejected, hunpaused, hall]

theorem requeue_ends_unpaused (version : String) (hnack : ∀ b, c.nack b = .ok ())
    (hquiet : s.requeued = false ∧ s.unpaused = false) :
    EndsIn c (overPayload fromisoformat data dataType (requeue false version))
      (fun s' r => r = .ok () ∧ s'.acked = s.acked ∧ s'.rejected = s.rejected ∧
        s'.requeued = true ∧ s'.unpaused = !c.consumerTags.all s.confirmed) s := by
  simp [requeue, hnack, hquiet]

theorem publishPurgeVetoes_ends (t : DataType) (counted : Option Nat) :
    EndsIn c (overPayload fromisoformat data dataType (publishPurgeVetoes t counted))
      (fun s' r => s' = s ∧ r = .ok ()) s := by
  cases counted with
  | none => simp [publishPurgeVetoes]
  | some consecutive =>
    by_cases halert : purgeVetoAlertRuns ≤ consecutive
    · simp [publishPurgeVetoes, halert]
    · simp [publishPurgeVetoes, halert]

theorem reportPurgeVetoes_ends (t : DataType) :
    EndsIn c (overPayload fromisoformat data dataType (reportPurgeVetoes t))
      (fun s' r => s' = s ∧ r = .ok ()) s := by
  have hpublish : ∀ counted, EndsIn c (overPayload fromisoformat data dataType (publishPurgeVetoes t counted))
      (fun s' r => s' = s ∧ r = .ok ()) s := fun counted => publishPurgeVetoes_ends t counted
  unfold reportPurgeVetoes latchAtHand
  cases hadmission : c.writeAdmission with
  | false => cases hpool : c.connectionPool <;> simp [hadmission, hpool]
  | true =>
    cases hpool : c.connectionPool with
    | false => simp [hadmission, hpool]
    | true =>
      cases hdeclared : c.latchDeclared with
      | false => simp [hadmission, hpool, hdeclared]
      | true =>
        cases hcount : c.consecutivePurgeVetoes with
        | error e => simp [hadmission, hpool, hdeclared, hcount, hpublish]
        | ok count => simp [hadmission, hpool, hdeclared, hcount, hpublish]

theorem acknowledge_ends (vetoed : Bool) (hack : c.ack = .ok ())
    (hcancellation : c.scheduleConsumerCancellation = .ok ()) :
    EndsIn c (overPayload fromisoformat data dataType (acknowledge d vetoed))
      (fun s' r => s' = { s with acked := true } ∧ r = .ok ()) s := by
  have hreport : ∀ s : Fate, EndsIn c (overPayload fromisoformat data dataType (reportPurgeVetoes d.dataType))
      (fun s' r => s' = s ∧ r = .ok ()) s := fun s => reportPurgeVetoes_ends d.dataType
  cases hdue : c.cancellationDue with
  | false => 
    cases vetoed <;> cases hprocessor : c.batchProcessor <;>
      simpa [acknowledge, hdue, hack, hprocessor] using hreport { s with acked := true }
  | true => 
    cases vetoed <;> cases hprocessor : c.batchProcessor <;>
      simpa [acknowledge, hdue, hack, hcancellation, hprocessor] using hreport { s with acked := true }

end

/-! ## One handling -/

/-- The purge, or the record of what speaks against it, succeeds. -/
def purgeStepSucceeds (fromisoformat : String → Bool) (data : Document) (dataType : DataType)
    (c : Circumstances) (d : Delivery) : Bool :=
  if vetoFound c d then vetoKeeps c d else purgeReturns fromisoformat data dataType c

/-- The flush and the settlement of the delivery succeed. -/
structure Settleable (c : Circumstances) : Prop where
  flush : c.batchProcessor = true → c.flushQueue = .ok true
  cancellation : c.scheduleConsumerCancellation = .ok ()
  ack : c.ack = .ok ()
  nack : ∀ requeue, c.nack requeue = .ok ()

section

variable {fromisoformat : String → Bool} {data : Document} {dataType : DataType}
  {c : Circumstances} (d : Delivery)

theorem purgeAndHandOff_ends (version : String) (hsettleable : Settleable c) :
    EndsIn c (overPayload fromisoformat data dataType (purgeAndHandOff d version))
      (fun s' r => r = .ok () ∧
        s'.acked = (purgeStepSucceeds fromisoformat data dataType c d && handOffReturns c) ∧
        s'.rejected = false ∧
        s'.requeued = (!purgeStepSucceeds fromisoformat data dataType c d ||
          !handOffReturns c && pauseConfirmed c) ∧
        s'.unpaused = (!purgeStepSucceeds fromisoformat data dataType c d &&
          !c.consumerTags.isEmpty)) .undecided := by
  simp only [purgeAndHandOff, interp_bind, wpWhen_bind]
  refine wpWhen_mono (purgeVetoReason_ends d) ?_
  rintro _ _ ⟨rfl, reason, rfl, hreason⟩
  refine wpWhen_mono (purgeOrVeto_ends d reason) ?_
  rintro _ _ ⟨rfl, rfl⟩
  rw [hreason, ← purgeStepSucceeds]
  cases hpurge : purgeStepSucceeds fromisoformat data dataType c d with
  | false =>
    refine wpWhen_mono (requeue_ends_unpaused version hsettleable.nack ⟨rfl, rfl⟩) ?_
    rintro s' r ⟨hr, hacked, hrejected, hrequeued, hunpaused⟩
    refine ⟨hr, hacked, hrejected, hrequeued, ?_⟩
    rw [hunpaused]
    cases c.consumerTags <;> simp [Fate.undecided]
  | true =>
    simp only [Bool.not_true, Bool.false_eq_true, if_false, interp_bind, wpWhen_bind]
    refine wpWhen_mono (handOff_ends d) ?_
    rintro _ _ ⟨rfl, rfl⟩
    cases hhandOff : handOffReturns c with
    | false => 
      refine wpWhen_mono (requeue_ends version hsettleable.nack ⟨rfl, rfl⟩) ?_
      rintro s' r ⟨hr, hacked, hrejected, hrequeued, hunpaused⟩
      exact ⟨hr, hacked, hrejected, by simpa using hrequeued, hunpaused⟩
    | true =>
      refine wpWhen_mono
        (acknowledge_ends d (vetoFound c d) hsettleable.ack hsettleable.cancellation) ?_
      rintro _ _ ⟨rfl, rfl⟩
      exact ⟨rfl, rfl, rfl, rfl, rfl⟩

/-- The flush succeeds, or there is nothing to flush. -/
theorem processExtractionComplete_ends {Q : Fate → Except Failure Unit → Prop}
    (hsettleable : Settleable c)
    (hrefused : ∀ e, orderedVersion d.version = .error e →
      EndsIn c (await (.inl (.inl (.nack false)))) Q .undecided)
    (haccepted : ∀ version, orderedVersion d.version = .ok version →
      EndsIn c (overPayload fromisoformat data dataType (purgeAndHandOff d version)) Q
        .undecided) :
    EndsIn c (overPayload fromisoformat data dataType (processExtractionComplete d)) Q
      .undecided := by
  cases hversion : orderedVersion d.version with
  | error e =>
    have hrest := hrefused e hversion
    cases hprocessor : c.batchProcessor with
    | false => simpa [processExtractionComplete, hversion, hprocessor] using hrest
    | true =>
      simpa [processExtractionComplete, hversion, hprocessor, hsettleable.flush hprocessor] using
        hrest
  | ok version =>
    have hrest := haccepted version hversion
    cases hprocessor : c.batchProcessor with
    | false => simpa [processExtractionComplete, hversion, hprocessor] using hrest
    | true =>
      simpa [processExtractionComplete, hversion, hprocessor, hsettleable.flush hprocessor] using
        hrest

/-- What becomes of a delivery in durable mode. -/
theorem processDataMessage_ends (hsettleable : Settleable c) :
    EndsIn c (overPayload fromisoformat data dataType (processDataMessage d))
      (fun s' _ =>
        s'.acked = (!c.shutdownRequested && (orderedVersion d.version).isOk &&
          (purgeStepSucceeds fromisoformat data dataType c d && handOffReturns c)) ∧
        s'.rejected = (!c.shutdownRequested && !(orderedVersion d.version).isOk) ∧
        s'.requeued = (!c.shutdownRequested && (orderedVersion d.version).isOk &&
          (!purgeStepSucceeds fromisoformat data dataType c d ||
            !handOffReturns c && pauseConfirmed c)) ∧
        s'.unpaused = (!c.shutdownRequested && (orderedVersion d.version).isOk &&
          (!purgeStepSucceeds fromisoformat data dataType c d && !c.consumerTags.isEmpty)))
      .undecided := by
  cases hshutdown : c.shutdownRequested with
  | true => simp [processDataMessage, hshutdown, Fate.undecided]
  | false =>
    simp only [processDataMessage, interp_bind, interp_await, wpWhen_bind, expand_of_not_composite,
      wpWhen_await, AnsweredBy, Circumstances.answer, hshutdown, forall_eq, true_and,
      Bool.false_eq_true, if_false, interp_tryCatch, wpWhen_tryCatch]
    refine processExtractionComplete_ends d hsettleable ?_ ?_
    · intro e hversion
      simp [hsettleable.nack, hversion, Fate.undecided, Except.isOk, Except.toBool]
    · intro version hversion
      refine wpWhen_mono (purgeAndHandOff_ends d version hsettleable) ?_
      rintro s' _ ⟨rfl, hacked, hrejected, hrequeued, hunpaused⟩
      simp [hversion, hacked, hrejected, hrequeued, hunpaused, Except.isOk, Except.toBool]

end

/-- Every call of a trace is answered by the circumstances. -/
def traceOf (text : Json → String) (fromisoformat : String → Bool) (mode : RefreshMode)
    (data : Document) (dataType : DataType) (c : Circumstances) : List TerminalEntry :=
  ((processTerminal text fromisoformat mode data dataType).trace (fun _ _ op => c.answer op) []).2

/-- A requeue follows the confirmed cancellation of every consumer. -/
def RequeuedPaused (c : Circumstances) (trace : List TerminalEntry) : Prop :=
  ∀ before entry rest, trace = before ++ entry :: rest → requeues entry.op entry.reply = true →
    ∀ t ∈ c.consumerTags, happened (confirms t) before = true

theorem settles_cases {ρ : Type} {op : TerminalCall ρ} {reply : Except Failure ρ}
    (h : settles op reply = true) :
    acked op reply = true ∨ rejects op reply = true ∨ requeues op reply = true := by
  cases op with
  | inl op =>
    cases op with
    | inl op =>
      cases op with
      | ack => exact Or.inl h
      | nack requeue => cases requeue <;> simp_all
      | _ => simp at h
    | inr op => simp at h
  | inr op => simp at h

/-- What a program does in circumstances is what becomes of the delivery in the trace. -/
theorem EndsIn.trace {α : Type} {c : Circumstances} {p : Terminal α}
    {Q : Fate → Except Failure α → Prop} (h : EndsIn c p Q .undecided) :
    ∃ s r, Q s r ∧
      s.acked = happened acked (p.trace (fun _ _ op => c.answer op) []).2 ∧
      s.rejected = happened rejects (p.trace (fun _ _ op => c.answer op) []).2 ∧
      s.requeued = happened requeues (p.trace (fun _ _ op => c.answer op) []).2 ∧
      (s.unpaused = false ↔
        RequeuedPaused c (p.trace (fun _ _ op => c.answer op) []).2) := by
  have henv : ∀ (past : List TerminalEntry) {ρ : Type} (op : TerminalCall ρ),
      AnsweredBy c op (c.answer op) := fun _ _ _ => rfl
  obtain ⟨trace, htrace, hend, -⟩ :=
    @trace_of_wpWhen _ _ _ _ _ _ _ (fun _ _ op => c.answer op) henv _ _ _ [] h
  obtain ⟨hacked, hrejected, hrequeued, -, hunpaused⟩ := Fate.after_undecided c.consumerTags trace
  rw [htrace, List.nil_append]
  refine ⟨_, _, hend, hacked, hrejected, hrequeued, ?_⟩
  rw [← Bool.not_eq_true, hunpaused]
  constructor
  · intro hnone before entry rest hsplit hentry t ht
    by_contra hmissing
    exact hnone ⟨before, entry, rest, hsplit, hentry, t, ht, by simpa using hmissing⟩
  · rintro hpaused ⟨before, entry, rest, hsplit, hentry, t, ht, hmissing⟩
    rw [hpaused before entry rest hsplit hentry t ht] at hmissing
    cases hmissing

/-- In durable mode a delivery that is not acked goes back with every consumer paused, or
    stays, if and only if the purge step succeeds. -/
theorem requeued_paused_iff (text : Json → String) (fromisoformat : String → Bool)
    (data : Document) (dataType : DataType) (c : Circumstances) (hsettleable : Settleable c)
    (hversion : (orderedVersion (deliveryOf text data dataType).version).isOk = true) :
    (RequeuedPaused c (traceOf text fromisoformat .durable data dataType c) ∧
      (happened acked (traceOf text fromisoformat .durable data dataType c) = false →
        happened requeues (traceOf text fromisoformat .durable data dataType c) = false →
          happened settles (traceOf text fromisoformat .durable data dataType c) = false)) ↔
    (c.shutdownRequested = true ∨
      purgeStepSucceeds fromisoformat data dataType c (deliveryOf text data dataType) = true ∨
      c.consumerTags = []) := by
  have hprocess : processTerminal text fromisoformat .durable data dataType =
      overPayload fromisoformat data dataType
        (processDataMessage (deliveryOf text data dataType)) := by
    simp [processTerminal, RefreshMode.process]
  obtain ⟨s, r, ⟨-, hrejected, -, hunpaused⟩, -, hrejects, -, hpaused⟩ :=
    (processDataMessage_ends (deliveryOf text data dataType) hsettleable).trace
  rw [← hprocess, ← traceOf] at hrejects hpaused
  -- Nothing is dead-lettered, so what is neither acked nor requeued stays.
  have hstays : happened acked (traceOf text fromisoformat .durable data dataType c) = false →
      happened requeues (traceOf text fromisoformat .durable data dataType c) = false →
        happened settles (traceOf text fromisoformat .durable data dataType c) = false := by
    intro hnotAcked hnotRequeued
    have hnotRejected :
        happened rejects (traceOf text fromisoformat .durable data dataType c) = false := by
      rw [← hrejects, hrejected, hversion]
      simp
    rw [List.any_eq_false] at hnotAcked hnotRequeued hnotRejected ⊢
    intro entry hmem hsettles
    rcases settles_cases hsettles with hop | hop | hop
    · exact hnotAcked entry hmem hop
    · exact hnotRejected entry hmem hop
    · exact hnotRequeued entry hmem hop
  rw [← hpaused, hunpaused, hversion]
  constructor
  · rintro ⟨hquiet, -⟩
    cases hshutdown : c.shutdownRequested with
    | true => exact Or.inl rfl
    | false =>
      refine Or.inr ?_
      cases hpurge : purgeStepSucceeds fromisoformat data dataType c
          (deliveryOf text data dataType) with
      | true => exact Or.inl rfl
      | false => exact Or.inr (by simpa [hshutdown, hpurge] using hquiet)
  · intro hcond
    refine ⟨?_, hstays⟩
    rcases hcond with hshutdown | hpurge | hnone
    · simp [hshutdown]
    · simp [hpurge]
    · simp [hnone]

/-- The commit fails, and both consumers are cancelled before the requeue. -/
def commitFails : Circumstances := { calm with recordDurableSignal := .error "OperationalError" }

theorem requeued_paused_commit_fails :
    happened requeues (traceOf plainText isPlainStart .durable plainMessage .artists commitFails) =
      true ∧
    RequeuedPaused commitFails
      (traceOf plainText isPlainStart .durable plainMessage .artists commitFails) :=
  ⟨by decide +kernel,
    ((requeued_paused_iff plainText isPlainStart plainMessage .artists commitFails
      ⟨fun _ => rfl, rfl, rfl, fun _ => rfl⟩ (by decide +kernel)).2
      (Or.inr (Or.inl (by decide +kernel)))).1⟩

/-- The purge fails, and the signal goes back while both consumers are subscribed. -/
def purgeFails : Circumstances := { calm with purgeRows := .error "OperationalError" }

theorem purge_failure_requeues_unpaused :
    happened requeues (traceOf plainText isPlainStart .durable plainMessage .artists purgeFails) =
      true ∧
    .artists ∈ purgeFails.consumerTags ∧
    happened (confirms .artists)
      (traceOf plainText isPlainStart .durable plainMessage .artists purgeFails) = false := by
  refine ⟨?_, ?_, ?_⟩ <;> decide +kernel

/-! ## Inline mode -/

/-- The inline refresh returns, when every call of it does. -/
def refreshReturns (c : Circumstances) (d : Delivery) : Bool :=
  !(c.connectionPool && c.latchDeclared) || (extractionLatchKey d).isNone || c.writeAdmission

/-- Every flush, database and broker call of the handler succeeds. -/
structure Smooth (c : Circumstances) : Prop extends Settleable c where
  deadLetters : c.deadLettersWaiting.isSome = true
  vetoRead : returned c.purgeWasVetoed = true
  vetoWrite : returned c.recordPurgeVeto = true
  purge : returned c.purgeRows = true
  commit : returned c.recordDurableSignal = true
  signal : returned c.recordExtractionSignal = true
  refresh : returned c.refreshDerivedRelations = true
  pause : ∀ t, returned (c.cancelConsumer t) = true

section

variable {fromisoformat : String → Bool} {data : Document} {dataType : DataType}
  {c : Circumstances} {s : Fate} (d : Delivery)

-- A part of the inline handler over the payload.
abbrev inlineOverPayload (fromisoformat : String → Bool) (data : Document) (dataType : DataType)
    {α : Type} (p : Service α) : Terminal α :=
  p.interp (expand fromisoformat data dataType)

theorem refreshInline_ends (hsmooth : Smooth c) :
    EndsIn c (inlineOverPayload fromisoformat data dataType (refreshInline d))
      (fun s' r => s' = s ∧ r = .ok (refreshReturns c d)) s := by
  unfold refreshReturns
  cases hpool : c.connectionPool with
  | false => simp [refreshInline, hpool]
  | true =>
    cases hdeclared : c.latchDeclared with
    | false => simp [refreshInline, hpool, hdeclared]
    | true =>
      cases hkey : extractionLatchKey d with
      | none => simp [refreshInline, hpool, hdeclared, hkey]
      | some version =>
        cases hadmission : c.writeAdmission with
        | false =>
          simp [refreshInline, signalAndRefresh, hpool, hdeclared, hkey, hadmission]
        | true =>
          have hsignalled := hsmooth.signal
          have hrefreshed := hsmooth.refresh
          cases hsignal : c.recordExtractionSignal with
          | error e => simp [hsignal] at hsignalled
          | ok latch =>
            cases hrefresh : c.refreshDerivedRelations with
            | error e => simp [hrefresh] at hrefreshed
            | ok _ =>
              cases hshould : latch.shouldRefresh dataTypes <;>
                simp [refreshInline, signalAndRefresh, hpool, hdeclared, hkey, hadmission, hsignal,
                  hrefresh, hshould]

theorem purgeAndRefresh_ends (hsmooth : Smooth c) :
    EndsIn c (inlineOverPayload fromisoformat data dataType (purgeAndRefresh d))
      (fun s' r => r = .ok () ∧
        s'.acked = (purgeStepSucceeds fromisoformat data dataType c d && refreshReturns c d) ∧
        s'.rejected = false ∧
        s'.requeued = !(purgeStepSucceeds fromisoformat data dataType c d && refreshReturns c d))
      .undecided := by
  simp only [purgeAndRefresh, interp_bind, interp_lift, wpWhen_bind]
  refine wpWhen_mono (purgeVetoReason_ends d) ?_
  rintro _ _ ⟨rfl, reason, rfl, hreason⟩
  refine wpWhen_mono (purgeOrVeto_ends d reason) ?_
  rintro _ _ ⟨rfl, rfl⟩
  rw [hreason, ← purgeStepSucceeds]
  cases purgeStepSucceeds fromisoformat data dataType c d with
  | false => simp [hsmooth.nack, Fate.undecided]
  | true =>
    simp only [Bool.not_true, Bool.false_eq_true, if_false, interp_bind, wpWhen_bind]
    refine wpWhen_mono (refreshInline_ends d hsmooth) ?_
    rintro _ _ ⟨rfl, rfl⟩
    cases refreshReturns c d with
    | false => simp [hsmooth.nack, Fate.undecided]
    | true =>
      simp only [if_true, interp_lift]
      refine wpWhen_mono (acknowledge_ends d (vetoFound c d) hsmooth.ack hsmooth.cancellation) ?_
      rintro _ _ ⟨rfl, rfl⟩
      exact ⟨rfl, rfl, rfl, rfl⟩

/-- What becomes of a delivery in inline mode when no call fails. -/
theorem processDataMessageInline_ends (hsmooth : Smooth c) :
    EndsIn c (inlineOverPayload fromisoformat data dataType (processDataMessageInline d))
      (fun s' _ =>
        s'.acked = (!c.shutdownRequested &&
          (purgeStepSucceeds fromisoformat data dataType c d && refreshReturns c d)) ∧
        s'.rejected = false ∧
        s'.requeued = (!c.shutdownRequested &&
          !(purgeStepSucceeds fromisoformat data dataType c d && refreshReturns c d)))
      .undecided := by
  cases hshutdown : c.shutdownRequested with
  | true => simp [processDataMessageInline, hshutdown, Fate.undecided]
  | false =>
    have hcomplete : EndsIn c
        (inlineOverPayload fromisoformat data dataType (processExtractionCompleteInline d))
        (fun s' r => r = .ok () ∧
          s'.acked = (purgeStepSucceeds fromisoformat data dataType c d && refreshReturns c d) ∧
          s'.rejected = false ∧
          s'.requeued = !(purgeStepSucceeds fromisoformat data dataType c d && refreshReturns c d))
        .undecided := by
      have hpurge := @purgeAndRefresh_ends fromisoformat data dataType c d hsmooth
      cases hprocessor : c.batchProcessor with
      | false => simpa [processExtractionCompleteInline, hprocessor] using hpurge
      | true =>
        simpa [processExtractionCompleteInline, hprocessor, hsmooth.flush hprocessor] using hpurge
    simp only [processDataMessageInline, interp_bind, interp_lift, interp_await, wpWhen_bind,
      expand_of_not_composite, wpWhen_await, AnsweredBy, Circumstances.answer, hshutdown, forall_eq,
      true_and, Bool.false_eq_true, if_false, interp_tryCatch, wpWhen_tryCatch]
    refine wpWhen_mono hcomplete ?_
    rintro s' _ ⟨rfl, hacked, hrejected, hrequeued⟩
    simp [hacked, hrejected, hrequeued]

end

/-! ## What a message can make of its own delivery -/

/-- Settled with an ack or into the dead-letter queue, never requeued. -/
def SettledForGood (trace : List TerminalEntry) : Prop :=
  (happened acked trace = true ∨ happened rejects trace = true) ∧ happened requeues trace = false

/-- The process can handle the message: it is up, and its purge step meets nothing it cannot
    read. -/
def Digestible (fromisoformat : String → Bool) (mode : RefreshMode) (data : Document)
    (dataType : DataType) (c : Circumstances) (d : Delivery) : Bool :=
  !c.shutdownRequested &&
    match mode with
    | .durable =>
      !(orderedVersion d.version).isOk ||
        c.connectionPool && c.writeAdmission && c.durableRefreshReady &&
          (vetoFound c d || messagePurge fromisoformat data dataType != .refused)
    | .inline =>
      (if vetoFound c d then
        (extractionLatchKey d).isNone || !(c.connectionPool && c.latchDeclared) || c.writeAdmission
      else
        !c.connectionPool ||
          c.writeAdmission && messagePurge fromisoformat data dataType != .refused) &&
        refreshReturns c d

theorem purgeReturns_of_smooth {fromisoformat : String → Bool} {data : Document}
    {dataType : DataType} {c : Circumstances} (hsmooth : Smooth c) :
    purgeReturns fromisoformat data dataType c =
      (!c.connectionPool || c.writeAdmission && messagePurge fromisoformat data dataType != .refused) := by
  unfold purgeReturns
  cases messagePurge fromisoformat data dataType with
  | skipped =>
    have hread : (PurgeStart.skipped != .refused) = true := rfl
    simp only [hread, Bool.and_true]
  | refused => simp
  | parsed startedAt =>
    have hread : (PurgeStart.parsed startedAt != .refused) = true := rfl
    simp only [hread, hsmooth.purge, Bool.and_true]

theorem vetoKeeps_of_smooth {c : Circumstances} (hsmooth : Smooth c) (d : Delivery) :
    vetoKeeps c d =
      ((extractionLatchKey d).isNone || !(c.connectionPool && c.latchDeclared) || c.writeAdmission) := by
  rw [vetoKeeps, hsmooth.vetoWrite, Bool.and_true]

/-- When no call fails, a delivery is settled for good if and only if the process can handle
    its message. -/
theorem settled_for_good_iff (text : Json → String) (fromisoformat : String → Bool)
    (mode : RefreshMode) (data : Document) (dataType : DataType) (c : Circumstances)
    (hsmooth : Smooth c) :
    SettledForGood (traceOf text fromisoformat mode data dataType c) ↔
      Digestible fromisoformat mode data dataType c (deliveryOf text data dataType) = true := by
  have hveto := vetoKeeps_of_smooth hsmooth (deliveryOf text data dataType)
  have hpurge := @purgeReturns_of_smooth fromisoformat data dataType c hsmooth
  cases mode with
  | durable =>
    have hprocess : processTerminal text fromisoformat .durable data dataType =
        overPayload fromisoformat data dataType
          (processDataMessage (deliveryOf text data dataType)) := by
      simp [processTerminal, RefreshMode.process]
    obtain ⟨s, r, ⟨hacked, hrejected, hrequeued, -⟩, hacks, hrejects, hrequeues, -⟩ :=
      (processDataMessage_ends (deliveryOf text data dataType) hsmooth.toSettleable).trace
    rw [← hprocess, ← traceOf] at hacks hrejects hrequeues
    rw [SettledForGood, ← hacks, ← hrejects, ← hrequeues, hacked, hrejected, hrequeued,
      Digestible, purgeStepSucceeds, handOffReturns, hveto, hpurge, hsmooth.commit]
    -- What is left is propositional.
    cases c.shutdownRequested <;> cases (orderedVersion (deliveryOf text data dataType).version).isOk <;>
      cases vetoFound c (deliveryOf text data dataType) <;> cases c.connectionPool <;>
      cases c.writeAdmission <;> cases c.durableRefreshReady <;> simp
  | inline =>
    have hprocess : processTerminal text fromisoformat .inline data dataType =
        inlineOverPayload fromisoformat data dataType
          (processDataMessageInline (deliveryOf text data dataType)) := by
      simp [processTerminal, RefreshMode.process]
    obtain ⟨s, r, ⟨hacked, hrejected, hrequeued⟩, hacks, hrejects, hrequeues, -⟩ :=
      (processDataMessageInline_ends (deliveryOf text data dataType) hsmooth).trace
    rw [← hprocess, ← traceOf] at hacks hrejects hrequeues
    rw [SettledForGood, ← hacks, ← hrejects, ← hrequeues, hacked, hrejected, hrequeued,
      Digestible, ← hveto, ← hpurge, ← purgeStepSucceeds]
    cases c.shutdownRequested <;>
      cases purgeStepSucceeds fromisoformat data dataType c (deliveryOf text data dataType) <;>
      cases refreshReturns c (deliveryOf text data dataType) <;> simp

theorem calm_smooth : Smooth calm :=
  ⟨⟨fun _ => rfl, rfl, rfl, fun _ => rfl⟩, rfl, rfl, rfl, rfl, rfl, rfl, rfl, fun _ => rfl⟩

theorem settled_for_good_calm :
    SettledForGood (traceOf plainText isPlainStart .durable plainMessage .artists calm) :=
  (settled_for_good_iff plainText isPlainStart .durable plainMessage .artists calm calm_smooth).2
    (by decide +kernel)

/-- The message without counts. -/
def nullCounts : Document :=
  [("type", .str "extraction_complete"), ("version", .str "20260131"),
    ("started_at", .str "2026-02-01T06:00:00+00:00"), ("record_counts", .null)]

theorem null_counts_requeued :
    Smooth calm ∧
      happened requeues (traceOf plainText isPlainStart .durable nullCounts .artists calm) = true ∧
      happened requeues (traceOf plainText isPlainStart .inline nullCounts .artists calm) = true := by
  refine ⟨calm_smooth, ?_, ?_⟩ <;> decide +kernel

end Tableinator.Durable
