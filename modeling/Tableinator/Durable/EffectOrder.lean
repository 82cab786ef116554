import Tableinator.Durable.Terminal

/-! # The order of effects

What one handling of a terminal signal does, in durable mode, in the order it does it.
The handler is followed part by part with the facts its trace established so far; what a
part needs of them is stated once, and what it adds. -/

namespace Tableinator.Durable

open Effect Effect.Program

/-! ## The calls of a trace and their answers -/

abbrev TerminalEntry := Entry TerminalCall Failure

/-- The call returned. -/
@[simp] def returned {ρ : Type} : Except Failure ρ → Bool
  | .ok _ => true
  | .error _ => false

@[simp] def answered (b : Bool) : Except Failure Bool → Bool
  | .ok a => a == b
  | .error _ => false

/-- The count was not read, or is not zero. -/
@[simp] def waits : Except Failure (Option Nat) → Bool
  | .ok waiting => waiting != some 0
  | .error _ => false

/-- `flush_queue` was called. -/
@[simp] def flushes : {ρ : Type} → TerminalCall ρ → Except Failure ρ → Bool
  | _, .inl (.inl .flushQueue), _ => true
  | _, _, _ => false

@[simp] def flushed : {ρ : Type} → TerminalCall ρ → Except Failure ρ → Bool
  | _, .inl (.inl .flushQueue), reply => answered true reply
  | _, _, _ => false

/-- The process has no batch processor to flush. -/
@[simp] def unbatched : {ρ : Type} → TerminalCall ρ → Except Failure ρ → Bool
  | _, .inl (.inl .batchProcessor), reply => answered false reply
  | _, _, _ => false

/-- The answer is a reason against the purge. -/
@[simp] def vetoes : {ρ : Type} → TerminalCall ρ → Except Failure ρ → Bool
  | _, .inl (.inl .hadDlqNacks), reply => answered true reply
  | _, .inl (.inl .deadLettersWaiting), reply => waits reply
  | _, .inl (.inl (.purgeWasVetoed _)), reply => !answered false reply
  | _, _, _ => false

/-- No latch was declared when the handler looked, or the pool that reaches it was gone. -/
@[simp] def undeclared : {ρ : Type} → TerminalCall ρ → Except Failure ρ → Bool
  | _, .inl (.inl .connectionPool), reply => answered false reply
  | _, .inl (.inl .latchDeclared), reply => answered false reply
  | _, _, _ => false

@[simp] def recordsVeto : {ρ : Type} → TerminalCall ρ → Except Failure ρ → Bool
  | _, .inl (.inl (.recordPurgeVeto _)), reply => returned reply
  | _, _, _ => false

@[simp] def purges : {ρ : Type} → TerminalCall ρ → Except Failure ρ → Bool
  | _, .inr (.purgeRows _), _ => true
  | _, _, _ => false

/-- `record_durable_signal` committed, for the version and the type of the message. -/
@[simp] def commitsSignal (d : Delivery) : {ρ : Type} → TerminalCall ρ → Except Failure ρ → Bool
  | _, .inl (.inl (.recordDurableSignal version dataType)), reply =>
    version == d.version && dataType == d.dataType && returned reply
  | _, _, _ => false

@[simp] def acks : {ρ : Type} → TerminalCall ρ → Except Failure ρ → Bool
  | _, .inl (.inl .ack), _ => true
  | _, _, _ => false

@[simp] def acked : {ρ : Type} → TerminalCall ρ → Except Failure ρ → Bool
  | _, .inl (.inl .ack), reply => returned reply
  | _, _, _ => false

/-- An ack or a nack that succeeded. -/
@[simp] def settles : {ρ : Type} → TerminalCall ρ → Except Failure ρ → Bool
  | _, .inl (.inl .ack), reply => returned reply
  | _, .inl (.inl (.nack _)), reply => returned reply
  | _, _, _ => false

@[simp] def resets : {ρ : Type} → TerminalCall ρ → Except Failure ρ → Bool
  | _, .inl (.inl .resetDlqNacks), _ => true
  | _, _, _ => false

/-- Some call of the trace was one of these. -/
abbrev happened (p : ∀ {ρ : Type}, TerminalCall ρ → Except Failure ρ → Bool)
    (trace : List TerminalEntry) : Bool :=
  trace.any fun entry => p entry.op entry.reply

/-- The order of one handling.  `accepted` says that `ordered_version` takes the version. -/
structure EffectsOrdered (accepted : Bool) (d : Delivery) (trace : List TerminalEntry) : Prop where
  purgedOnce : trace.countP (fun entry => purges entry.op entry.reply) ≤ 1
  settledOnce : trace.countP (fun entry => settles entry.op entry.reply) ≤ 1
  purged : ∀ before entry rest, trace = before ++ entry :: rest →
    purges entry.op entry.reply = true →
      accepted = true ∧ happened vetoes before = false ∧
        (happened flushed before = true ∨
          happened unbatched before = true ∧ happened flushes before = false)
  acknowledged : ∀ before entry rest, trace = before ++ entry :: rest →
    acks entry.op entry.reply = true →
      happened (commitsSignal d) before = true ∧
        (happened vetoes before = true →
          happened recordsVeto before = true ∨ happened undeclared before = true)
  reset : ∀ before entry rest, trace = before ++ entry :: rest →
    resets entry.op entry.reply = true → happened acked before = true

/-! ## The facts a trace establishes -/

structure Facts where
  flushes : Bool
  flushed : Bool
  unbatched : Bool
  vetoed : Bool
  undeclared : Bool
  recorded : Bool
  purged : Bool
  signalled : Bool
  acked : Bool
  settled : Bool

namespace Facts

def none : Facts := ⟨false, false, false, false, false, false, false, false, false, false⟩

@[simp] def next (d : Delivery) (s : Facts) {ρ : Type} (op : TerminalCall ρ) (reply : Except Failure ρ) :
    Facts where
  flushes := s.flushes || Durable.flushes op reply
  flushed := s.flushed || Durable.flushed op reply
  unbatched := s.unbatched || Durable.unbatched op reply
  vetoed := s.vetoed || Durable.vetoes op reply
  undeclared := s.undeclared || Durable.undeclared op reply
  recorded := s.recorded || Durable.recordsVeto op reply
  purged := s.purged || Durable.purges op reply
  signalled := s.signalled || Durable.commitsSignal d op reply
  acked := s.acked || Durable.acked op reply
  settled := s.settled || Durable.settles op reply

/-- The queue was drained, or there was none. -/
def Drained (s : Facts) : Prop :=
  s.flushed = true ∨ s.unbatched = true ∧ s.flushes = false

@[simp] def Allowed (accepted : Bool) (s : Facts) : {ρ : Type} → TerminalCall ρ → Prop
  | _, .inr (.purgeRows _) =>
    accepted = true ∧ s.vetoed = false ∧ s.Drained ∧ s.purged = false
  | _, .inl (.inl .ack) =>
    s.signalled = true ∧ (s.vetoed = true → s.recorded = true ∨ s.undeclared = true) ∧
      s.settled = false
  | _, .inl (.inl (.nack _)) => s.settled = false
  | _, .inl (.inl .resetDlqNacks) => s.acked = true
  | _, _ => True

section

variable {s : Facts} {accepted : Bool} {ρ : Type} {op : TerminalCall ρ}
  {reply : Except Failure ρ}

theorem Allowed.purges (h : s.Allowed accepted op) (hop : Durable.purges op reply = true) :
    accepted = true ∧ s.vetoed = false ∧ s.Drained ∧ s.purged = false := by
  cases op with
  | inl op => simp at hop
  | inr op =>
    cases op with
    | purgeRows startedAt => exact h
    | _ => simp at hop

theorem Allowed.acks (h : s.Allowed accepted op) (hop : Durable.acks op reply = true) :
    s.signalled = true ∧ (s.vetoed = true → s.recorded = true ∨ s.undeclared = true) := by
  cases op with
  | inl op =>
    cases op with
    | inl op =>
      cases op with
      | ack => exact ⟨h.1, h.2.1⟩
      | _ => simp at hop
    | inr op => simp at hop
  | inr op => simp at hop

theorem Allowed.settles (h : s.Allowed accepted op) (hop : Durable.settles op reply = true) :
    s.settled = false := by
  cases op with
  | inl op =>
    cases op with
    | inl op =>
      cases op with
      | ack => exact h.2.2
      | nack requeue => exact h
      | _ => simp at hop
    | inr op => simp at hop
  | inr op => simp at hop

theorem Allowed.resets (h : s.Allowed accepted op) (hop : Durable.resets op reply = true) :
    s.acked = true := by
  cases op with
  | inl op =>
    cases op with
    | inl op =>
      cases op with
      | resetDlqNacks => exact h
      | _ => simp at hop
    | inr op => simp at hop
  | inr op => simp at hop

end

theorem after_none (d : Delivery) (trace : List TerminalEntry) :
    after (Facts.next d) .none trace =
      ⟨happened Durable.flushes trace, happened Durable.flushed trace,
        happened Durable.unbatched trace, happened Durable.vetoes trace,
        happened Durable.undeclared trace, happened Durable.recordsVeto trace,
        happened Durable.purges trace, happened (Durable.commitsSignal d) trace,
        happened Durable.acked trace, happened Durable.settles trace⟩ := by
  induction trace using List.reverseRecOn with
  | nil => rfl
  | append_singleton trace entry ih =>
    rw [after, List.foldl_concat, ← after, ih]
    simp only [next, happened, List.any_append, List.any_cons, List.any_nil, Bool.or_false]

end Facts

/-- Every call of the handler comes when it may. -/
abbrev InOrder {α : Type} (accepted : Bool) (d : Delivery) (p : Terminal α)
    (Q : Facts → Except Failure α → Prop) (s : Facts) : Prop :=
  wpWhen Answers (Facts.Allowed accepted) (Facts.next d) p Q s

/-- What a part that only asks leaves. -/
@[mk_iff]
structure Facts.Asks (s s' : Facts) : Prop where
  flushes : s'.flushes = s.flushes
  flushed : s'.flushed = s.flushed
  unbatched : s.unbatched = true → s'.unbatched = true
  undeclared : s.undeclared = true → s'.undeclared = true
  recorded : s.recorded = true → s'.recorded = true
  purged : s'.purged = s.purged
  acked : s'.acked = s.acked
  settled : s'.settled = s.settled

theorem Facts.Asks.refl (s : Facts) : s.Asks s := ⟨rfl, rfl, id, id, id, rfl, rfl, rfl⟩

theorem Facts.Asks.trans {s₁ s₂ s₃ : Facts} (h : s₁.Asks s₂) (h' : s₂.Asks s₃) : s₁.Asks s₃ where
  flushes := h'.flushes.trans h.flushes
  flushed := h'.flushed.trans h.flushed
  unbatched := fun hs => h'.unbatched (h.unbatched hs)
  undeclared := fun hs => h'.undeclared (h.undeclared hs)
  recorded := fun hs => h'.recorded (h.recorded hs)
  purged := h'.purged.trans h.purged
  acked := h'.acked.trans h.acked
  settled := h'.settled.trans h.settled

theorem Facts.Asks.drained {s s' : Facts} (h : s.Asks s') (hs : s.Drained) : s'.Drained := by
  cases hs with
  | inl hflushed => exact Or.inl (h.flushed.trans hflushed)
  | inr hnone => exact Or.inr ⟨h.unbatched hnone.1, h.flushes.trans hnone.2⟩

/-! ## The parts of the handler -/

section

variable {fromisoformat : String → Bool} {data : Document} {dataType : DataType}
  {accepted : Bool} {s : Facts} (d : Delivery)

-- A part of the durable handler over the payload.
abbrev overPayload (fromisoformat : String → Bool) (data : Document) (dataType : DataType)
    {α : Type} (p : Handler α) : Terminal α :=
  p.interp fun op => expand fromisoformat data dataType (.inl op)

theorem recordedVetoReason_inOrder :
    InOrder accepted d (overPayload fromisoformat data dataType (recordedVetoReason d))
      (fun s' r => s.Asks s' ∧
        ∀ reason, r = .ok reason → s'.vetoed = (s.vetoed || reason.isSome)) s := by
  unfold recordedVetoReason
  cases extractionLatchKey d with
  | none => simp [Facts.Asks.refl]
  | some version =>
    simp +contextual [latchAtHand, forall_isOk, forall_except,
      Facts.asks_iff]

/-- The count of dead letters was read, and is a reason unless it is zero. -/
theorem deadLetterReason_inOrder {vetoed : Bool} (waiting : Option Nat)
    (hwaiting : s.vetoed = (vetoed || waiting != some 0)) :
    InOrder accepted d (overPayload fromisoformat data dataType (deadLetterReason d waiting))
      (fun s' r => s.Asks s' ∧
        ∀ reason, r = .ok reason → s'.vetoed = (vetoed || reason.isSome)) s := by
  match waiting with
  | none =>
    have hvetoed : s.vetoed = true := by simp [hwaiting]
    simp [deadLetterReason, Facts.Asks.refl, hvetoed]
  | some (waiting + 1) =>
    have hvetoed : s.vetoed = true := by simp [hwaiting]
    simp [deadLetterReason, Facts.Asks.refl, hvetoed]
  | some 0 =>
    have hvetoed : vetoed = s.vetoed := by simp [hwaiting]
    subst hvetoed
    exact recordedVetoReason_inOrder d

theorem purgeVetoReason_inOrder :
    InOrder accepted d (overPayload fromisoformat data dataType (purgeVetoReason d))
      (fun s' r => s.Asks s' ∧
        ∀ reason, r = .ok reason → s'.vetoed = (s.vetoed || reason.isSome)) s := by
  have hcount : ∀ (s₁ : Facts) (waiting : Option Nat), s.Asks s₁ →
      s₁.vetoed = (s.vetoed || waiting != some 0) →
      InOrder accepted d (overPayload fromisoformat data dataType (deadLetterReason d waiting))
        (fun s' r => s.Asks s' ∧
          ∀ reason, r = .ok reason → s'.vetoed = (s.vetoed || reason.isSome)) s₁ := by
    intro s₁ waiting hasks hwaiting
    exact wpWhen_mono (deadLetterReason_inOrder d waiting hwaiting) fun s' r h =>
      ⟨hasks.trans h.1, h.2⟩
  simp +contextual [purgeVetoReason, forall_isOk,
    Facts.asks_iff]
  constructor
  · intro waiting
    simpa [Facts.asks_iff] using hcount _ waiting (by simp [Facts.asks_iff]) rfl
  · intro waiting
    simpa [Facts.asks_iff] using hcount _ waiting (by simp [Facts.asks_iff]) rfl

theorem persistPurgeVeto_inOrder (hkey : (extractionLatchKey d).isSome = true) :
    InOrder accepted d (overPayload fromisoformat data dataType (persistPurgeVeto d))
      (fun s' r => s.Asks s' ∧ s'.vetoed = s.vetoed ∧
        (r = .ok true → s'.recorded = true ∨ s'.undeclared = true)) s := by
  unfold persistPurgeVeto
  cases hversion : extractionLatchKey d with
  | none => simp [hversion] at hkey
  | some version =>
    simp +contextual [latchAtHand, forall_isOk, forall_except,
      Facts.asks_iff]

theorem purgePayload_inOrder (haccepted : accepted = true) (hvetoed : s.vetoed = false)
    (hdrained : s.Drained) (hpurged : s.purged = false) :
    InOrder accepted d (purgePayload fromisoformat data dataType)
      (fun s' _ => s'.vetoed = false ∧ s'.acked = s.acked ∧ s'.settled = s.settled) s := by
  unfold purgePayload
  cases recordCounts data with
  | obj counts =>
    simp only [purgeStaleRowsOf]
    cases purgeStart fromisoformat (startedAt data) (Document.get counts (DataType.text dataType)) with
    | skipped => simp [forall_isOk, hvetoed]
    | refused => simp [forall_isOk, hvetoed]
    | parsed startedAt =>
      simp only [Facts.Drained] at hdrained
      simp [forall_isOk, Facts.Drained, haccepted, hvetoed, hpurged,
        hdrained]
  | _ => simp [hvetoed]

theorem purgeOrVeto_inOrder (reason : Option String) (haccepted : accepted = true)
    (hkey : (extractionLatchKey d).isSome = true) (hvetoed : s.vetoed = reason.isSome)
    (hdrained : s.Drained) (hpurged : s.purged = false) :
    InOrder accepted d (overPayload fromisoformat data dataType (purgeOrVeto d reason))
      (fun s' r => s'.acked = s.acked ∧ s'.settled = s.settled ∧
        (r = .ok true → s'.vetoed = true → s'.recorded = true ∨ s'.undeclared = true)) s := by
  cases reason with
  | some reason =>
    refine wpWhen_mono (persistPurgeVeto_inOrder d hkey) ?_
    rintro s' r ⟨hasks, _, hrecorded⟩
    exact ⟨hasks.acked, hasks.settled, fun hr _ => hrecorded hr⟩
  | none =>
    have hnone : s.vetoed = false := hvetoed
    have hpurge : InOrder accepted d
        (expand fromisoformat data dataType (.inl (.purgeStaleRows d.startedAt d.recordCount)))
        (fun s' _ => s'.vetoed = false ∧ s'.acked = s.acked ∧ s'.settled = s.settled) s :=
      purgePayload_inOrder d haccepted hnone hdrained hpurged
    simp [purgeOrVeto, forall_isOk, hnone]
    rw [← hnone]
    refine wpWhen_mono hpurge ?_
    rintro s' r ⟨hvetoed', hacked, hsettled⟩
    cases r with
    | ok _ => simp [hvetoed', hacked, hsettled]
    | error e => simp [hacked, hsettled]

theorem handOff_inOrder :
    InOrder accepted d (overPayload fromisoformat data dataType (handOff d))
      (fun s' r => s'.acked = s.acked ∧ s'.settled = s.settled ∧ s'.vetoed = s.vetoed ∧
        s'.recorded = s.recorded ∧ (s.undeclared = true → s'.undeclared = true) ∧
        (r = .ok true → s'.signalled = true)) s := by
  simp +contextual [handOff, forall_isOk,
    forall_except]

theorem publishPurgeVetoes_inOrder (t : DataType) (counted : Option Nat) :
    InOrder accepted d (overPayload fromisoformat data dataType (publishPurgeVetoes t counted))
      (fun _ r => r = .ok ()) s := by
  cases counted with
  | none => simp [publishPurgeVetoes]
  | some consecutive =>
    by_cases halert : purgeVetoAlertRuns ≤ consecutive
    · simp [publishPurgeVetoes, halert, forall_isOk]
    · simp [publishPurgeVetoes, halert, forall_isOk]

theorem reportPurgeVetoes_inOrder (t : DataType) :
    InOrder accepted d (overPayload fromisoformat data dataType (reportPurgeVetoes t))
      (fun _ r => r = .ok ()) s := by
  simp +contextual [reportPurgeVetoes, latchAtHand, forall_isOk, forall_except,
    publishPurgeVetoes_inOrder d t]

/-- Nothing raises once the delivery is acked. -/
theorem acknowledge_inOrder (vetoed : Bool) (hsignalled : s.signalled = true)
    (hsettled : s.settled = false)
    (hrecorded : s.vetoed = true → s.recorded = true ∨ s.undeclared = true) :
    InOrder accepted d (overPayload fromisoformat data dataType (acknowledge d vetoed))
      (fun s' r => ∀ e, r = .error e → s'.settled = false) s := by
  have hreport : ∀ s₁ : Facts,
      InOrder accepted d (overPayload fromisoformat data dataType (reportPurgeVetoes d.dataType))
        (fun s' r => ∀ e, r = .error e → s'.settled = false) s₁ := fun s₁ =>
    wpWhen_mono (reportPurgeVetoes_inOrder d d.dataType) fun s' r hr e he => by simp [hr] at he
  cases vetoed with
  | true => 
    simp +contextual [acknowledge, forall_isOk,
      forall_except, hsignalled, hsettled, hrecorded, hreport]
  | false => 
    simp +contextual [acknowledge, forall_isOk,
      forall_except, hsignalled, hsettled, hrecorded, hreport]

theorem cancelConsumers_inOrder (tags : List DataType) :
    InOrder accepted d (cancelConsumers tags) (fun s' _ => s'.settled = s.settled) s := by
  induction tags generalizing s with
  | nil => simp [cancelConsumers]
  | cons t rest ih =>
    simp +contextual [cancelConsumers, forall_isOk, forall_except, ih]

theorem requeue_inOrder (handOffFailed : Bool) (version : String) (hsettled : s.settled = false) :
    InOrder accepted d (overPayload fromisoformat data dataType (requeue handOffFailed version))
      (fun s' r => ∀ e, r = .error e → s'.settled = false) s := by
  cases handOffFailed with
  | false =>
    simp [requeue, hsettled]
  | true =>
    have hpause : InOrder accepted d
        (expand fromisoformat data dataType (.inl (.pauseDurableConsumers version)))
        (fun s' _ => s'.settled = s.settled) s := by
      simp [expand, pauseDurableConsumers, forall_isOk,
        cancelConsumers_inOrder d]
    simp only [requeue, if_true, interp_bind, interp_await, wpWhen_bind]
    refine wpWhen_mono hpause ?_
    rintro s' r hunchanged
    cases r with
    | error e => simp [hunchanged, hsettled]
    | ok paused =>
      cases paused with
      | false => simp
      | true =>
        simp [hunchanged, hsettled]

theorem purgeAndHandOff_inOrder (version : String) (haccepted : accepted = true)
    (hkey : (extractionLatchKey d).isSome = true) (hvetoed : s.vetoed = false)
    (hdrained : s.Drained) (hpurged : s.purged = false) (hsettled : s.settled = false) :
    InOrder accepted d (overPayload fromisoformat data dataType (purgeAndHandOff d version))
      (fun s' r => ∀ e, r = .error e → s'.settled = false) s := by
  simp only [purgeAndHandOff, interp_bind, wpWhen_bind]
  refine wpWhen_mono (purgeVetoReason_inOrder d) ?_
  rintro s₁ (e | reason) ⟨hasks, hreason⟩
  · exact fun _ _ => hasks.settled.trans hsettled
  have hsettled₁ : s₁.settled = false := hasks.settled.trans hsettled
  have hvetoed₁ : s₁.vetoed = reason.isSome := by simpa [hvetoed] using hreason reason rfl
  refine wpWhen_mono (purgeOrVeto_inOrder d reason haccepted hkey hvetoed₁
    (hasks.drained hdrained) (hasks.purged.trans hpurged)) ?_
  rintro s₂ (e | purgeOk) ⟨-, hunchanged, hrecorded⟩
  · exact fun _ _ => hunchanged.trans hsettled₁
  have hsettled₂ : s₂.settled = false := hunchanged.trans hsettled₁
  cases purgeOk with
  | false => exact requeue_inOrder d false version hsettled₂
  | true =>
    simp only [Bool.not_true, interp_bind, wpWhen_bind, Bool.false_eq_true, if_false]
    refine wpWhen_mono (handOff_inOrder d) ?_
    rintro s₃ (e | refreshOk) ⟨-, hunchanged', hvetoed₃, hrecorded₃, hundeclared₃, hsignalled⟩
    · exact fun _ _ => hunchanged'.trans hsettled₂
    have hsettled₃ : s₃.settled = false := hunchanged'.trans hsettled₂
    cases refreshOk with
    | false => exact requeue_inOrder d true version hsettled₃
    | true =>
      -- The only way to the ack: the handoff committed the signal.
      refine acknowledge_inOrder d reason.isSome (hsignalled rfl) hsettled₃ ?_
      rw [hvetoed₃, hrecorded₃]
      exact fun hvetoed₂ => (hrecorded rfl hvetoed₂).imp_right hundeclared₃

end

/-- A valid version names its extraction. -/
theorem extractionLatchKey_isSome {d : Delivery} {version : String}
    (h : orderedVersion d.version = .ok version) : (extractionLatchKey d).isSome = true := by
  obtain ⟨hstrip, htext, -⟩ := orderedVersion_eq_ok.1 h
  have hne : strip d.version ≠ "" := by
    rintro hempty
    rw [← hstrip, hempty] at htext
    exact absurd htext (by decide)
  simp [extractionLatchKey, hne]

theorem processExtractionComplete_inOrder (fromisoformat : String → Bool) (data : Document)
    (dataType : DataType) (d : Delivery) :
    InOrder (orderedVersion d.version).isOk d
      (overPayload fromisoformat data dataType (processExtractionComplete d))
      (fun s' r => ∀ e, r = .error e → s'.settled = false) .none := by
  have hpurge : ∀ (s : Facts) (version : String), orderedVersion d.version = .ok version →
      s.vetoed = false → s.Drained → s.purged = false → s.settled = false →
      InOrder (orderedVersion d.version).isOk d
        (overPayload fromisoformat data dataType (purgeAndHandOff d version))
        (fun s' r => ∀ e, r = .error e → s'.settled = false) s := by
    intro s version hversion hvetoed hdrained hpurged hsettled
    exact purgeAndHandOff_inOrder d version (by simp [hversion, Except.isOk, Except.toBool])
      (extractionLatchKey_isSome hversion) hvetoed hdrained hpurged hsettled
  cases hversion : orderedVersion d.version with
  | error e =>
    simp [processExtractionComplete, hversion, forall_isOk, forall_except, Facts.none]
  | ok version =>
    rw [hversion] at hpurge
    simp [processExtractionComplete, hversion, forall_isOk, forall_except, Facts.none]
    refine ⟨?_, ?_⟩
    · apply hpurge _ _ rfl <;> simp [Facts.Drained]
    · apply hpurge _ _ rfl <;> simp [Facts.Drained]

theorem processDataMessage_inOrder (fromisoformat : String → Bool) (data : Document)
    (dataType : DataType) (d : Delivery) :
    InOrder (orderedVersion d.version).isOk d
      (overPayload fromisoformat data dataType (processDataMessage d)) (fun _ _ => True) .none := by
  have hcomplete := processExtractionComplete_inOrder fromisoformat data dataType d
  simp [processDataMessage, forall_isOk]
  refine wpWhen_mono hcomplete ?_
  intro s' r hr
  cases r with
  | ok _ => trivial
  | error e => simp [hr e rfl]

/-! ## Traces -/

theorem countP_le_one {α : Type _} {p : α → Bool} {l : List α}
    (h : ∀ before a rest, l = before ++ a :: rest → p a = true → before.any p = false) :
    l.countP p ≤ 1 := by
  induction l using List.reverseRecOn with
  | nil => simp
  | append_singleton l a ih =>
    have hl : l.countP p ≤ 1 := ih fun before b rest hsplit =>
      h before b (rest ++ [a]) (by simp [hsplit])
    by_cases ha : p a = true
    · have hnone := h l a [] rfl ha
      have hzero : l.countP p = 0 := by
        simpa [List.countP_eq_zero] using hnone
      simp [List.countP_append, hzero, ha]
    · simpa [List.countP_append, ha] using hl

/-- A program that makes every call when it may leaves its effects in order. -/
theorem effectsOrdered_of_inOrder {accepted : Bool} {d : Delivery} {p : Terminal Unit}
    {Q : Facts → Except Failure Unit → Prop} (h : InOrder accepted d p Q .none)
    (env : Environment TerminalCall Failure)
    (henv : ∀ past {ρ} (op : TerminalCall ρ), Answers op (env past op)) :
    EffectsOrdered accepted d (p.trace env []).2 := by
  obtain ⟨trace, htrace, -, hallowed⟩ := @trace_of_wpWhen _ _ _ _ _ _ _ env henv _ _ _ [] h
  rw [htrace, List.nil_append]
  simp only [Facts.after_none] at hallowed
  constructor
  · apply countP_le_one
    intro before entry rest hsplit hop
    exact ((hallowed before entry rest hsplit).purges hop).2.2.2
  · apply countP_le_one
    intro before entry rest hsplit hop
    exact (hallowed before entry rest hsplit).settles hop
  · intro before entry rest hsplit hop
    obtain ⟨haccepted, hvetoed, hdrained, -⟩ := (hallowed before entry rest hsplit).purges hop
    exact ⟨haccepted, hvetoed, hdrained⟩
  · intro before entry rest hsplit hop
    exact (hallowed before entry rest hsplit).acks hop
  · intro before entry rest hsplit hop
    exact (hallowed before entry rest hsplit).resets hop

theorem processTerminal_inOrder (text : Json → String) (fromisoformat : String → Bool)
    (data : Document) (dataType : DataType) :
    InOrder (orderedVersion (deliveryOf text data dataType).version).isOk (deliveryOf text data dataType)
      (processTerminal text fromisoformat .durable data dataType) (fun _ _ => True) .none := by
  have hprocess : processTerminal text fromisoformat .durable data dataType =
      overPayload fromisoformat data dataType
        (processDataMessage (deliveryOf text data dataType)) := by
    simp [processTerminal, RefreshMode.process]
  rw [hprocess]
  exact processDataMessage_inOrder fromisoformat data dataType (deliveryOf text data dataType)

end Tableinator.Durable
