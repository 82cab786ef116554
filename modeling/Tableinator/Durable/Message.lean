import Tableinator.Batch.Observer
import Tableinator.Durable.EffectOrder

/-! # The message handler

`_process_data_message` on any body: a record, either marker, or something that cannot be
read.  The handler answers for its delivery until the broker settled it or the batch
engine took it over. -/

namespace Tableinator.Durable

open Effect Effect.Program

/-- What the handler does for a record or a `file_complete` message, beyond the calls of a
    terminal signal. -/
inductive RecordCall : Type → Type where
  -- The type is running again: its flags and its completion timer go.
  | rearm : RecordCall Unit
  | completeFile : RecordCall Unit
  | noteRejection : RecordCall Unit
  | accepted : RecordCall Unit
  | withdrawn : RecordCall Unit
  | submit (dataId sha256 : Json) (data : Document) : RecordCall Unit
  | thresholdReached : RecordCall Bool
  | flush : RecordCall Bool
  | countRecord : RecordCall Unit
  | runDelivery (dataId : Json) (data : Document) : RecordCall Batch.Settlement
  | resetBackoff : RecordCall Unit

abbrev MessageCall (ρ : Type) := TerminalCall ρ ⊕ RecordCall ρ

abbrev Message (α : Type) := Program MessageCall Failure α

-- A call the terminal handler has too.
abbrev ask {ρ : Type} (op : Call ρ) : Message ρ := await (.inl (.inl (.inl op)))

/-! ## Records -/

-- `reject` of `add_message`.
def rejectRecord : Message Bool := do
  await (.inr .noteRejection)
  ask (.nack false)
  pure false

-- The engine owns the delivery once `submit` returns.
def submitRecord (dataId sha256 : Json) (data : Document) : Message Bool := do
  await (.inr .accepted)
  tryCatch (await (.inr (.submit dataId sha256 data))) fun e => do
    await (.inr .withdrawn)
    raise e
  let reached ← await (.inr .thresholdReached)
  if reached then do
    let _ ← await (.inr .flush)
    pure true
  else pure true

section

variable (normalizeRecord : DataType → Document → Except Failure Document) (batchMode : Bool)

/-- `add_message`. -/
def addMessage (dataType : DataType) (data : Document) : Message Bool :=
  if !(data.get "id").truthy then rejectRecord
  else
    match normalizeRecord dataType data with
    | .error _ => rejectRecord
    | .ok normalized =>
      submitRecord (data.get "id") ((data.lookup "sha256").getD (.str "")) normalized

-- A record that is left to `run_delivery` is returned with its id.
def processRecord (dataType : DataType) (data : Document) : Message (Option (Json × Document)) :=
  if !(data.get "id").truthy then do
    ask (.nack false)
    pure none
  else do
    let processor ← if batchMode then ask .batchProcessor else pure false
    if processor then do
      let accepted ← addMessage normalizeRecord dataType data
      if accepted then do
        await (.inr .countRecord)
        pure none
      else pure none
    else
      match normalizeRecord dataType data with
      | .error e => raise e
      | .ok normalized => pure (some (data.get "id", normalized))

end

/-- The record outside batch mode: the runner settles the delivery itself. -/
def deliverRecord : Option (Json × Document) → Message Unit
  | none => pure ()
  | some (dataId, data) => do
    let settlement ← await (.inr (.runDelivery dataId data))
    if settlement = .ack then do
      await (.inr .resetBackoff)
      await (.inr .countRecord)
    else pure ()

/-! ## Messages -/

/-- The `file_complete` branch. -/
def processFileComplete : Message Unit := do
  let processor ← ask .batchProcessor
  let flushed ← if processor then ask .flushQueue else pure true
  -- what is not flushed may still be lost, so the marker comes again
  if !flushed then ask (.nack true)
  else do
    await (.inr .completeFile)
    let due ← ask .cancellationDue
    if due then ask .scheduleConsumerCancellation
    ask .ack

inductive MessageKind where
  | fileComplete
  | extractionComplete
  | record
  deriving DecidableEq

-- `data.get("type")`
def messageKind (data : Document) : MessageKind :=
  match data.get "type" with
  | .str "file_complete" => .fileComplete
  | .str "extraction_complete" => .extractionComplete
  | _ => .record

/-- The `extraction_complete` branch in the mode of the process. -/
def RefreshMode.branch (d : Delivery) : RefreshMode → Service Unit
  | .durable => inBoth (processExtractionComplete d)
  | .inline => processExtractionCompleteInline d

section

variable (text : Json → String) (fromisoformat : String → Bool)
  (normalizeRecord : DataType → Document → Except Failure Document)
  (mode : RefreshMode) (batchMode : Bool) (dataType : DataType)

def terminalBranch (data : Document) : Terminal Unit :=
  (mode.branch (deliveryOf text data dataType)).interp (expand fromisoformat data dataType)

-- The body of the handler's `try`, from what `loads` made of the message.
def inspect : Except Failure Json → Message (Option (Json × Document))
  | .error e => raise e
  | .ok (.obj data) =>
    match messageKind data with
    | .fileComplete => do
      processFileComplete
      pure none
    | .extractionComplete => do
      (terminalBranch text fromisoformat mode dataType data).lift .inl
      pure none
    | .record => do
      await (.inr .rearm)
      processRecord normalizeRecord batchMode dataType data
  | .ok _ => raise "AttributeError"

/-- `_process_data_message`. -/
def processMessage (body : Except Failure Json) : Message Unit := do
  let shutdown ← ask .shutdownRequested
  if shutdown then pure ()
  else do
    let pending ← tryCatch (inspect text fromisoformat normalizeRecord mode batchMode dataType body)
      fun _ => do
        ask (.nack false)
        pure none
    deliverRecord pending

end

/-! ## The terminal signal among the messages -/

theorem processTerminal_eq (text : Json → String) (fromisoformat : String → Bool) (mode : RefreshMode)
    (data : Document) (dataType : DataType) :
    processTerminal text fromisoformat mode data dataType = (do
      let shutdown ← await (.inl (.inl .shutdownRequested))
      if shutdown then pure ()
      else
        tryCatch (terminalBranch text fromisoformat mode dataType data) fun _ =>
          await (.inl (.inl (.nack false)))) := by
  cases mode with
  | durable => simp [processTerminal, RefreshMode.process, RefreshMode.branch, terminalBranch, processDataMessage]
  | inline =>
    simp [processTerminal, RefreshMode.process, RefreshMode.branch, terminalBranch, processDataMessageInline]

/-- A mark that a `try` returns, and that what follows reads as nothing to do. -/
theorem tryCatch_mark {Op : Type → Type} {ε β : Type} {p : Program Op ε Unit} {handler : ε → Program Op ε Unit}
    {mark : β} {rest : β → Program Op ε Unit} (hrest : rest mark = pure ()) :
    (tryCatch (p >>= fun _ => pure mark) (fun e => handler e >>= fun _ => pure mark) >>= rest) =
      tryCatch p handler := by
  have hlawful : LawfulMonad (Program Op ε) := lawful
  -- on the program: its calls are the same on both sides, and only its ends differ
  induction p with
  | done a => exact hrest
  | raise e =>
    show ((handler e >>= fun _ => pure mark) >>= rest) = handler e
    rw [bind_assoc]
    simp only [pure_bind, hrest]
    exact bind_pure (handler e)
  | call op k ih => exact congrArg (Program.call op) (funext ih)

/-- On an `extraction_complete` body the handler is the terminal handler. -/
theorem processMessage_terminal (text : Json → String) (fromisoformat : String → Bool)
    (normalizeRecord : DataType → Document → Except Failure Document) (mode : RefreshMode)
    (batchMode : Bool) (dataType : DataType) {data : Document}
    (hkind : messageKind data = .extractionComplete) :
    processMessage text fromisoformat normalizeRecord mode batchMode dataType (.ok (.obj data)) =
      (processTerminal text fromisoformat mode data dataType).lift .inl := by
  rw [processTerminal_eq]
  simp only [processMessage, inspect, hkind, lift_bind, lift_await, lift_ite, lift_pure, lift_tryCatch]
  refine congrArg (ask .shutdownRequested >>= ·) (funext fun shutdown => ?_)
  have hnone : deliverRecord none = pure () := rfl
  rw [tryCatch_mark hnone]

/-- Seen whole, the handler makes for an `extraction_complete` body the calls of the terminal
    handler and no others, and their effects come in its order. -/
theorem processMessage_ordered (text : Json → String) (fromisoformat : String → Bool)
    (normalizeRecord : DataType → Document → Except Failure Document) (batchMode : Bool)
    (dataType : DataType) {data : Document} (hkind : messageKind data = .extractionComplete)
    (env : Environment MessageCall Failure)
    (henv : ∀ past {ρ} (op : TerminalCall ρ), Answers op (env past (.inl op))) :
    ∃ trace : List TerminalEntry,
      ((processMessage text fromisoformat normalizeRecord .durable batchMode dataType
        (.ok (.obj data))).trace env []).2 = trace.map (Entry.lift .inl) ∧
      EffectsOrdered (orderedVersion (deliveryOf text data dataType).version).isOk
        (deliveryOf text data dataType) trace := by
  rw [processMessage_terminal text fromisoformat normalizeRecord .durable batchMode dataType hkind]
  refine ⟨_, congrArg Prod.snd (trace_lift _ env []), ?_⟩
  exact effectsOrdered_of_inOrder (processTerminal_inOrder text fromisoformat data dataType) _
    fun _ _ op => henv _ op

/-! ## What becomes of a delivery -/

@[simp] def RecordCall.infallible : {ρ : Type} → RecordCall ρ → Bool
  | _, .rearm => true
  | _, .completeFile => true
  | _, .noteRejection => true
  | _, .accepted => true
  | _, .withdrawn => true
  | _, .countRecord => true
  | _, .resetBackoff => true
  | _, _ => false

/-- The answers a call may get. -/
@[simp] def Replies : {ρ : Type} → MessageCall ρ → Except Failure ρ → Prop
  | _, .inl op, reply => Answers op reply
  | _, .inr op, reply => op.infallible = true → reply.isOk = true

abbrev MessageEntry := Entry MessageCall Failure

/-- The broker settled the delivery, or someone else answers for it from here on. -/
@[simp] def disposes : {ρ : Type} → MessageCall ρ → Except Failure ρ → Bool
  | _, .inl op, reply => settles op reply
  | _, .inr (.submit _ _ _), reply => returned reply
  | _, .inr (.runDelivery _ _), _ => true
  | _, _, _ => false

/-- An ack or a nack that raised. -/
@[simp] def refuses : {ρ : Type} → MessageCall ρ → Except Failure ρ → Bool
  | _, .inl (.inl (.inl .ack)), reply => !returned reply
  | _, .inl (.inl (.inl (.nack _))), reply => !returned reply
  | _, _, _ => false

/-- The handler gives up on the delivery without a settlement. -/
@[simp] def leaves : {ρ : Type} → MessageCall ρ → Except Failure ρ → Bool
  | _, .inl (.inl (.inl .shutdownRequested)), reply => answered true reply
  | _, .inl (.inr .resetDurableBroker), _ => true
  | _, _, _ => false

/-- The flush that a full queue asks for raised, after the engine took the record. -/
@[simp] def overruns : {ρ : Type} → MessageCall ρ → Except Failure ρ → Bool
  | _, .inr .thresholdReached, reply => !returned reply
  | _, .inr .flush, reply => !returned reply
  | _, _, _ => false

/-- Some call of the trace was one of these. -/
abbrev occurred (p : ∀ {ρ : Type}, MessageCall ρ → Except Failure ρ → Bool)
    (trace : List MessageEntry) : Bool :=
  trace.any fun entry => p entry.op entry.reply

structure Disposal where
  disposed : Bool
  refused : Bool
  left : Bool
  overran : Bool

namespace Disposal

def pending : Disposal := ⟨false, false, false, false⟩

@[simp] def next (s : Disposal) {ρ : Type} (op : MessageCall ρ) (reply : Except Failure ρ) : Disposal where
  disposed := s.disposed || disposes op reply
  refused := s.refused || refuses op reply
  left := s.left || leaves op reply
  overran := s.overran || overruns op reply

/-- Nobody answers for the delivery but the handler. -/
@[simp] def Held (s : Disposal) : Prop := s.left = false ∧ (s.disposed = false ∨ s.overran = true)

@[simp] def Allowed (s : Disposal) : {ρ : Type} → MessageCall ρ → Prop
  | _, .inl (.inl (.inl .ack)) => s.Held
  | _, .inl (.inl (.inl (.nack _))) => s.Held
  | _, .inl (.inl (.inl .shutdownRequested)) => s.disposed = false
  | _, .inl (.inr .resetDurableBroker) => s.disposed = false
  | _, .inr (.submit _ _ _) => s.Held
  | _, .inr (.runDelivery _ _) => s.Held
  | _, _ => True

theorem Allowed.disposes {s : Disposal} {ρ : Type} {op : MessageCall ρ} {reply : Except Failure ρ}
    (h : s.Allowed op) (hop : Durable.disposes op reply = true) : s.Held := by
  cases op with
  | inl op =>
    cases op with
    | inl op =>
      cases op with
      | inl op => cases op <;> first | exact h | simp at hop
      | inr op => simp at hop
    | inr op => simp at hop
  | inr op => cases op <;> first | exact h | simp at hop

theorem after_pending (trace : List MessageEntry) :
    after Disposal.next .pending trace =
      ⟨occurred Durable.disposes trace, occurred Durable.refuses trace, occurred Durable.leaves trace,
        occurred Durable.overruns trace⟩ := by
  induction trace using List.reverseRecOn with
  | nil => rfl
  | append_singleton trace entry ih =>
    rw [after, List.foldl_concat, ← after, ih]
    simp only [next, occurred, List.any_append, List.any_cons, List.any_nil, Bool.or_false]

end Disposal

/-- The program settles only what is still the handler's to settle. -/
abbrev Settling {α : Type} (p : Message α) (Q : Disposal → Except Failure α → Prop) (s : Disposal) : Prop :=
  wpWhen Replies Disposal.Allowed Disposal.next p Q s

/-! ## Parts that settle nothing -/

-- The calls that neither settle a delivery nor give up on it.
@[simp] def plain : {ρ : Type} → TerminalCall ρ → Prop
  | _, .inl (.inl .ack) => False
  | _, .inl (.inl (.nack _)) => False
  | _, .inl (.inl .shutdownRequested) => False
  | _, .inr .resetDurableBroker => False
  | _, _ => True

theorem plain_steady {s : Disposal} {ρ : Type} (op : TerminalCall ρ) (hop : plain op) :
    s.Allowed (.inl op) ∧ ∀ reply, s.next (.inl op) reply = s := by
  cases op with
  | inl op =>
    cases op with
    | inl op => cases op <;> first | exact hop.elim | simp
    | inr op => simp
  | inr op => cases op <;> first | exact hop.elim | simp

theorem settling_of_plain {α : Type} {p : Terminal α} {s : Disposal} (hp : p.Only plain) :
    Settling (p.lift .inl) (fun s' _ => s' = s) s :=
  (wpWhen_lift_iff _ _ _).2 (wpWhen_of_only plain_steady hp)

section

variable {fromisoformat : String → Bool} {data : Document} {dataType : DataType} (d : Delivery)

theorem purgePayload_plain : (purgePayload fromisoformat data dataType).Only plain := by
  unfold purgePayload
  cases recordCounts data with
  | obj counts =>
    simp only [purgeStaleRowsOf]
    cases purgeStart fromisoformat (startedAt data) (Document.get counts (DataType.text dataType)) with
    | skipped => simp [Only]
    | refused => simp [Only]
    | parsed startedAt => simp [Only]
  | _ => simp [Only]

/-- The calls of the branch that expand to plain ones. -/
@[simp] def modest : {ρ : Type} → ServiceCall ρ → Prop
  | _, .inl .ack => False
  | _, .inl (.nack _) => False
  | _, .inl .shutdownRequested => False
  | _, .inl (.pauseDurableConsumers _) => False
  | _, _ => True

theorem expand_plain {ρ : Type} (op : ServiceCall ρ) (hop : modest op) :
    (expand fromisoformat data dataType op).Only plain := by
  cases op with
  | inl op =>
    cases op with
    | purgeStaleRows startedAt recordCount => exact purgePayload_plain
    | _ => first | exact hop.elim | exact only_await trivial
  | inr op => exact only_await trivial

theorem plain_of_modest {α : Type} {p : Service α} (hp : p.Only modest) :
    (p.interp (expand fromisoformat data dataType)).Only plain :=
  only_interp (hp.mono expand_plain)

theorem recordedVetoReason_modest : (inBoth (recordedVetoReason d)).Only modest := by
  unfold recordedVetoReason latchAtHand
  cases extractionLatchKey d with
  | none => simp [Only]
  | some version => simp [Only]

theorem purgeVetoReason_modest : (inBoth (purgeVetoReason d)).Only modest := by
  have hcount : ∀ waiting, (inBoth (deadLetterReason d waiting)).Only modest := by
    intro waiting
    match waiting with
    | none => simp [deadLetterReason, Only]
    | some 0 => exact recordedVetoReason_modest d
    | some (waiting + 1) => simp [deadLetterReason, Only]
  simpa [purgeVetoReason, Only] using hcount

theorem purgeOrVeto_modest (reason : Option String) : (inBoth (purgeOrVeto d reason)).Only modest := by
  unfold purgeOrVeto persistPurgeVeto latchAtHand
  cases extractionLatchKey d with
  | none => simp [Only]
  | some version => simp [Only]

theorem handOff_modest : (inBoth (handOff d)).Only modest := by
  simp [handOff, Only]

theorem refreshInline_modest : (refreshInline d).Only modest := by
  unfold refreshInline signalAndRefresh
  cases extractionLatchKey d with
  | none => simp [Only]
  | some version => simp [Only]

end

/-! ## Parts that settle -/

/-- The part returned with the delivery settled or given up, or raised with it still in hand. -/
@[simp] def Concludes {α : Type} (s : Disposal) : Except Failure α → Prop
  | .ok _ => s.disposed = true ∨ s.left = true
  | .error _ => s.Held

section

variable {fromisoformat : String → Bool} {data : Document} {dataType : DataType} {s : Disposal} (d : Delivery)

-- A part of the durable handler over the payload, among the calls of a message.
abbrev inMessage (fromisoformat : String → Bool) (data : Document) (dataType : DataType) {α : Type}
    (p : Handler α) : Message α :=
  (overPayload fromisoformat data dataType p).lift .inl

theorem settling_of_modest {α : Type} {p : Handler α} (hp : (inBoth p).Only modest) :
    Settling (inMessage fromisoformat data dataType p) (fun s' _ => s' = s) s := by
  have hplain := @plain_of_modest fromisoformat data dataType _ _ hp
  rw [interp_lift] at hplain
  exact settling_of_plain hplain

theorem publishPurgeVetoes_settling (t : DataType) (counted : Option Nat) :
    Settling (inMessage fromisoformat data dataType (publishPurgeVetoes t counted))
      (fun s' r => s' = s ∧ r = .ok ()) s := by
  cases counted with
  | none => simp [publishPurgeVetoes, inMessage]
  | some consecutive =>
    by_cases halert : purgeVetoAlertRuns ≤ consecutive
    · simp [publishPurgeVetoes, inMessage, halert, forall_isOk]
    · simp [publishPurgeVetoes, inMessage, halert, forall_isOk]

theorem reportPurgeVetoes_settling (t : DataType) :
    Settling (inMessage fromisoformat data dataType (reportPurgeVetoes t)) (fun s' r => s' = s ∧ r = .ok ()) s := by
  simp +contextual [inMessage, reportPurgeVetoes, latchAtHand, forall_isOk, forall_except,
    publishPurgeVetoes_settling t]

theorem acknowledge_settling (vetoed : Bool) (hs : s.Held) :
    Settling (inMessage fromisoformat data dataType (acknowledge d vetoed)) Concludes s := by
  have hreport : ∀ s₁ : Disposal, s₁.disposed = true →
      Settling (inMessage fromisoformat data dataType (reportPurgeVetoes d.dataType)) Concludes s₁ := by
    intro s₁ hs₁
    refine wpWhen_mono (reportPurgeVetoes_settling d.dataType) ?_
    rintro s' r ⟨rfl, rfl⟩
    exact .inl hs₁
  simp only [Disposal.Held] at hs
  cases vetoed with
  | true => simp [acknowledge, inMessage, forall_isOk, forall_except, hs, hreport]
  | false => simp [acknowledge, inMessage, forall_isOk, forall_except, hs, hreport]

-- How a pause ends: it either closed every tap or gave up on the delivery.
@[simp] def Pauses (s : Disposal) : Except Failure Bool → Prop
  | .ok paused => s.disposed = false ∧ s.left = !paused
  | .error _ => False

theorem cancelConsumers_settling (tags : List DataType) (hleft : s.left = false) (hopen : s.disposed = false) :
    Settling ((cancelConsumers tags).lift .inl) Pauses s := by
  induction tags generalizing s with
  | nil => simp [cancelConsumers, hleft, hopen]
  | cons t rest ih =>
    have hrest : ∀ refused overran, Settling ((cancelConsumers rest).lift .inl) Pauses
        ⟨false, refused, false, overran⟩ := fun refused overran => @ih ⟨false, refused, false, overran⟩ rfl rfl
    simp [cancelConsumers, forall_isOk, forall_except, hopen, hleft, hrest]

theorem pauseDurableConsumers_settling (hleft : s.left = false) (hopen : s.disposed = false) :
    Settling (pauseDurableConsumers.lift .inl) Pauses s := by
  have htags : ∀ tags refused overran, Settling ((cancelConsumers tags).lift .inl) Pauses
      ⟨false, refused, false, overran⟩ := fun tags refused overran =>
    @cancelConsumers_settling ⟨false, refused, false, overran⟩ tags rfl rfl
  simp [pauseDurableConsumers, forall_isOk, hopen, hleft, htags]

theorem requeue_settling (handOffFailed : Bool) (version : String) (hleft : s.left = false)
    (hopen : s.disposed = false) :
    Settling (inMessage fromisoformat data dataType (requeue handOffFailed version)) Concludes s := by
  cases handOffFailed with
  | false => simp [requeue, inMessage, forall_except, hopen, hleft]
  | true =>
    simp [requeue, inMessage]
    refine wpWhen_mono (pauseDurableConsumers_settling hleft hopen) ?_
    rintro s' (e | paused) hpaused
    · exact hpaused.elim
    · obtain ⟨hopen', hleft'⟩ := hpaused
      cases paused with
      | false =>
        have hgiven : s'.left = true := hleft'
        simp [hgiven]
      | true =>
        have hheld : s'.left = false := hleft'
        simp [forall_except, hopen', hheld]

/-- What the branch knows of the delivery until it settles it. -/
abbrev InHand (s : Disposal) : Prop := s.left = false ∧ s.disposed = false

theorem InHand.held (hs : InHand s) : s.Held := ⟨hs.1, .inl hs.2⟩

theorem purgeAndHandOff_settling (version : String) (hs : InHand s) :
    Settling (inMessage fromisoformat data dataType (purgeAndHandOff d version)) Concludes s := by
  simp only [purgeAndHandOff, inMessage, interp_bind, lift_bind, wpWhen_bind]
  refine wpWhen_mono (settling_of_modest (purgeVetoReason_modest d)) ?_
  rintro s (e | reason) rfl
  · exact hs.held
  refine wpWhen_mono (settling_of_modest (purgeOrVeto_modest d reason)) ?_
  rintro s (e | purgeOk) rfl
  · exact hs.held
  cases purgeOk with
  | false => exact requeue_settling false version hs.1 hs.2
  | true =>
    simp only [Bool.not_true, Bool.false_eq_true, if_false, interp_bind, lift_bind, wpWhen_bind]
    refine wpWhen_mono (settling_of_modest (handOff_modest d)) ?_
    rintro s (e | refreshOk) rfl
    · exact hs.held
    cases refreshOk with
    | false => exact requeue_settling true version hs.1 hs.2
    | true => exact acknowledge_settling d reason.isSome hs.held

theorem purgeAndRefresh_settling (hs : InHand s) :
    Settling (((purgeAndRefresh d).interp (expand fromisoformat data dataType)).lift .inl) Concludes s := by
  simp only [purgeAndRefresh, interp_bind, interp_lift, lift_bind, wpWhen_bind]
  refine wpWhen_mono (settling_of_modest (purgeVetoReason_modest d)) ?_
  rintro s (e | reason) rfl
  · exact hs.held
  refine wpWhen_mono (settling_of_modest (purgeOrVeto_modest d reason)) ?_
  rintro s (e | purgeOk) rfl
  · exact hs.held
  cases purgeOk with
  | false => simp [forall_except, hs.1, hs.2]
  | true =>
    simp only [Bool.not_true, Bool.false_eq_true, if_false, interp_bind, lift_bind, wpWhen_bind]
    refine wpWhen_mono (settling_of_plain (plain_of_modest (refreshInline_modest d))) ?_
    rintro s (e | refreshOk) rfl
    · exact hs.held
    cases refreshOk with
    | false => simp [forall_except, hs.1, hs.2]
    | true =>
      simp only [if_true, interp_lift]
      exact acknowledge_settling d reason.isSome hs.held

theorem processExtractionComplete_settling (hs : InHand s) :
    Settling (inMessage fromisoformat data dataType (processExtractionComplete d)) Concludes s := by
  obtain ⟨hleft, hopen⟩ := hs
  cases hversion : orderedVersion d.version with
  | error e => simp [processExtractionComplete, inMessage, hversion, forall_isOk, forall_except, hleft, hopen]
  | ok version =>
    simp [processExtractionComplete, inMessage, hversion, forall_isOk, forall_except, hleft, hopen]
    exact purgeAndHandOff_settling d version ⟨rfl, rfl⟩

theorem processExtractionCompleteInline_settling (hs : InHand s) :
    Settling (((processExtractionCompleteInline d).interp (expand fromisoformat data dataType)).lift .inl)
      Concludes s := by
  obtain ⟨hleft, hopen⟩ := hs
  simp [processExtractionCompleteInline, forall_isOk, forall_except, hleft, hopen]
  exact purgeAndRefresh_settling d ⟨rfl, rfl⟩

theorem terminalBranch_settling (text : Json → String) (mode : RefreshMode) (hs : InHand s) :
    Settling ((terminalBranch text fromisoformat mode dataType data).lift .inl) Concludes s := by
  cases mode with
  | durable =>
    rw [terminalBranch, RefreshMode.branch, interp_lift]
    exact processExtractionComplete_settling _ hs
  | inline => exact processExtractionCompleteInline_settling _ hs

theorem processFileComplete_settling (hs : InHand s) : Settling processFileComplete Concludes s := by
  obtain ⟨hleft, hopen⟩ := hs
  simp [processFileComplete, forall_isOk, forall_except, hleft, hopen]

end

/-! ## Records -/

section

variable {normalizeRecord : DataType → Document → Except Failure Document} {batchMode : Bool} {s : Disposal}

/-- What the handler's `try` leaves: the delivery is dealt with, or its record is still to be delivered. -/
@[simp] def Inspects (s : Disposal) : Except Failure (Option (Json × Document)) → Prop
  | .ok none => s.disposed = true ∨ s.left = true
  | .ok (some _) => InHand s
  | .error _ => s.Held

theorem addMessage_settling (dataType : DataType) (data : Document) (hs : InHand s) :
    Settling (addMessage normalizeRecord dataType data) (fun s' r =>
      s'.left = false ∧ match r with
        | .ok _ => s'.disposed = true
        | .error _ => s'.disposed = false ∨ s'.overran = true) s := by
  obtain ⟨hleft, hopen⟩ := hs
  unfold addMessage
  split
  · simp [rejectRecord, forall_isOk, forall_except, hleft, hopen]
  · cases normalizeRecord dataType data with
    | error e => simp [rejectRecord, forall_isOk, forall_except, hleft, hopen]
    | ok normalized => simp [submitRecord, forall_isOk, forall_except, hleft, hopen]

theorem processRecord_settling (dataType : DataType) (data : Document) (hs : InHand s) :
    Settling (processRecord normalizeRecord batchMode dataType data) Inspects s := by
  have hsolo : ∀ s₁, InHand s₁ → Settling
      (match normalizeRecord dataType data with
        | .error e => raise e
        | .ok normalized => pure (some (data.get "id", normalized))) Inspects s₁ := by
    intro s₁ hs₁
    cases normalizeRecord dataType data with
    | error e => exact hs₁.held
    | ok normalized => exact hs₁
  unfold processRecord
  split
  · simp [forall_except, hs.1, hs.2]
  · cases batchMode with
    | false => exact hsolo s hs
    | true =>
      simp [forall_isOk, hs.1, hs.2]
      refine ⟨hsolo _ ⟨rfl, rfl⟩, wpWhen_mono (addMessage_settling dataType data ⟨rfl, rfl⟩) ?_⟩
      rintro s₁ r ⟨hleft, hr⟩
      cases r with
      | error e => exact ⟨hleft, hr⟩
      | ok accepted =>
        have hdisposed : s₁.disposed = true := hr
        cases accepted with
        | true => simp [forall_isOk, hdisposed]
        | false => simp [hdisposed]

end

section

variable (text : Json → String) (fromisoformat : String → Bool)
  (normalizeRecord : DataType → Document → Except Failure Document)
  (mode : RefreshMode) (batchMode : Bool) (dataType : DataType)

theorem inspect_settling (body : Except Failure Json) {s : Disposal} (hs : InHand s) :
    Settling (inspect text fromisoformat normalizeRecord mode batchMode dataType body) Inspects s := by
  cases body with
  | error e => exact hs.held
  | ok value =>
    cases value with
    | obj data =>
      cases hkind : messageKind data with
      | fileComplete =>
        simp only [inspect, hkind, wpWhen_bind]
        refine wpWhen_mono (processFileComplete_settling hs) ?_
        rintro s' (e | _) hdone
        · exact hdone
        · exact hdone
      | extractionComplete =>
        simp only [inspect, hkind, wpWhen_bind]
        refine wpWhen_mono (terminalBranch_settling text mode hs) ?_
        rintro s' (e | _) hdone
        · exact hdone
        · exact hdone
      | record =>
        simp [inspect, hkind, forall_isOk, hs.1, hs.2]
        exact processRecord_settling dataType data ⟨rfl, rfl⟩
    | _ => exact hs.held

/-- How a handling ends: the delivery was dealt with, or given up, or its settlement raised. -/
@[simp] def Ends (s : Disposal) (_ : Except Failure Unit) : Prop :=
  s.disposed = true ∨ s.left = true ∨ s.refused = true

theorem processMessage_settling (body : Except Failure Json) :
    Settling (processMessage text fromisoformat normalizeRecord mode batchMode dataType body) Ends .pending := by
  simp [processMessage, forall_isOk, forall_except]
  refine ⟨rfl, wpWhen_mono (inspect_settling text fromisoformat normalizeRecord mode batchMode dataType body ⟨rfl, rfl⟩) ?_⟩
  intro s r hr
  cases r with
  | error e =>
    refine ⟨hr, ?_⟩
    simp [deliverRecord]
  | ok record =>
    cases record with
    | none =>
      rcases hr with hdisposed | hleft
      · simp [deliverRecord, hdisposed]
      · simp [deliverRecord, hleft]
    | some record =>
      obtain ⟨hleft, hopen⟩ := hr
      obtain ⟨dataId, data⟩ := record
      simp [deliverRecord, forall_except, hleft, hopen]
      intro settlement
      cases settlement with
      | ack => simp [forall_isOk]
      | _ => simp

end

/-! ## Traces -/

/-- What becomes of one delivery. -/
structure DisposedOnce (trace : List MessageEntry) : Prop where
  ends : occurred disposes trace = true ∨ occurred leaves trace = true ∨ occurred refuses trace = true
  once : occurred overruns trace = false → trace.countP (fun entry => disposes entry.op entry.reply) ≤ 1
  given : occurred leaves trace = true → occurred disposes trace = false

theorem Disposal.Allowed.leaves {s : Disposal} {ρ : Type} {op : MessageCall ρ} {reply : Except Failure ρ}
    (h : s.Allowed op) (hop : Durable.leaves op reply = true) :
    s.disposed = false ∧ Durable.disposes op reply = false := by
  cases op with
  | inl op =>
    cases op with
    | inl op =>
      cases op with
      | inl op => cases op <;> first | exact ⟨h, rfl⟩ | simp at hop
      | inr op => simp at hop
    | inr op => cases op <;> first | exact ⟨h, rfl⟩ | simp at hop
  | inr op => simp at hop

/-- Of two kinds of entries that each exclude the other before them, a list has one. -/
theorem any_eq_false_of_excludes {α : Type _} {p q : α → Bool} {l : List α}
    (hp : ∀ before a rest, l = before ++ a :: rest → p a = true → before.any q = false ∧ q a = false)
    (hq : ∀ before a rest, l = before ++ a :: rest → q a = true → before.any p = false)
    (h : l.any p = true) : l.any q = false := by
  induction l using List.reverseRecOn with
  | nil => rfl
  | append_singleton l a ih =>
    have hinit : l.any p = true → l.any q = false := by
      refine ih (fun before b rest hsplit => hp before b (rest ++ [a]) (by simp [hsplit])) ?_
      exact fun before b rest hsplit => hq before b (rest ++ [a]) (by simp [hsplit])
    by_cases ha : p a = true
    · obtain ⟨hbefore, hlast⟩ := hp l a [] rfl ha
      simp [hbefore, hlast]
    · have hearlier : l.any p = true := by simpa [ha] using h
      have hlast : q a = false := by
        by_contra hqa
        rw [hq l a [] rfl (by simpa using hqa)] at hearlier
        cases hearlier
      simp [hinit hearlier, hlast]

/-- Whatever the body of a message and whatever its calls answer: the delivery is settled or handed
    over, or left to the closing connection, or its settlement raised; it is left to the connection
    only unsettled, and it is disposed of once, unless the flush after its submission raised. -/
theorem deliveries_are_disposed_once (text : Json → String) (fromisoformat : String → Bool)
    (normalizeRecord : DataType → Document → Except Failure Document) (mode : RefreshMode)
    (batchMode : Bool) (dataType : DataType) (body : Except Failure Json)
    (env : Environment MessageCall Failure)
    (henv : ∀ past {ρ} (op : MessageCall ρ), Replies op (env past op)) :
    DisposedOnce ((processMessage text fromisoformat normalizeRecord mode batchMode dataType body).trace
      env []).2 := by
  obtain ⟨trace, htrace, hend, hallowed⟩ := @trace_of_wpWhen _ _ _ _ _ _ _ env henv _ _ _ []
    (processMessage_settling text fromisoformat normalizeRecord mode batchMode dataType body)
  rw [htrace, List.nil_append]
  simp only [Disposal.after_pending] at hallowed hend
  constructor
  case ends => exact hend
  case once =>
    intro hnone
    apply countP_le_one
    intro before entry rest hsplit hop
    obtain ⟨-, hopen | hoverran⟩ := (hallowed before entry rest hsplit).disposes hop
    · exact hopen
    · obtain ⟨overrun, hmem, hraised⟩ := List.any_eq_true.1 hoverran
      have hlater : occurred overruns trace = true :=
        List.any_eq_true.2 ⟨overrun, hsplit ▸ List.mem_append_left _ hmem, hraised⟩
      rw [hnone] at hlater
      cases hlater
  case given =>
    refine any_eq_false_of_excludes ?_ ?_
    · exact fun before entry rest hsplit hop => (hallowed before entry rest hsplit).leaves hop
    · exact fun before entry rest hsplit hop => ((hallowed before entry rest hsplit).disposes hop).1

/-- A broker, a database and an engine that take everything. -/
def obliging : {ρ : Type} → MessageCall ρ → Except Failure ρ
  | _, .inl op => calm.answer op
  | _, .inr .rearm => .ok ()
  | _, .inr .completeFile => .ok ()
  | _, .inr .noteRejection => .ok ()
  | _, .inr .accepted => .ok ()
  | _, .inr .withdrawn => .ok ()
  | _, .inr (.submit _ _ _) => .ok ()
  | _, .inr .thresholdReached => .ok true
  | _, .inr .flush => .ok true
  | _, .inr .countRecord => .ok ()
  | _, .inr (.runDelivery _ _) => .ok .ack
  | _, .inr .resetBackoff => .ok ()

theorem obliging_replies {ρ : Type} (op : MessageCall ρ) : Replies op (obliging op) := by
  cases op with
  | inl op => exact calm.answers op
  | inr op => cases op <;> exact fun _ => rfl

def plainRecord : Except Failure Json := .ok (.obj [("id", .str "1"), ("name", .str "Aphex Twin")])

/-- A record that the engine takes over and flushes at once. -/
theorem deliveries_are_disposed_once_record :
    occurred disposes ((processMessage plainText isPlainStart (fun _ data => .ok data) .durable true
      .artists plainRecord).trace (fun _ _ op => obliging op) []).2 = true ∧
    DisposedOnce ((processMessage plainText isPlainStart (fun _ data => .ok data) .durable true
      .artists plainRecord).trace (fun _ _ op => obliging op) []).2 :=
  ⟨by decide +kernel, deliveries_are_disposed_once plainText isPlainStart (fun _ data => .ok data)
    .durable true .artists plainRecord (fun _ _ op => obliging op) fun _ _ op => obliging_replies op⟩

end Tableinator.Durable
