import Tableinator.Durable.Deployment
import Tableinator.Effect.Trace

/-! # The pass of an inline handler

What an inline handler has done when it acks: it recorded its signal, and if the reply
told it to run the pass, the pass returned. -/

namespace Tableinator.Durable

open Effect Effect.Program

/-- The reply to the recorded signal, and whether the pass returned. -/
structure Passing where
  recorded : Option ExtractionLatch
  passed : Bool

namespace Passing

def start : Passing := ⟨none, false⟩

/-- No pass has returned, and the reply to a recorded signal asks for one. -/
def Owes (st : Passing) : Prop :=
  st.passed = false ∧ ∀ latch, st.recorded = some latch → latch.shouldRefresh dataTypes = true

/-- The signal is recorded, and the pass, if it was this signal's to run, is done. -/
def Done (st : Passing) : Prop :=
  ∃ latch, st.recorded = some latch ∧ (latch.shouldRefresh dataTypes = true → st.passed = true)

theorem Owes.not_done {st : Passing} (h : st.Owes) : ¬st.Done := by
  rintro ⟨latch, hrecorded, hpassed⟩
  have hnot := h.1
  rw [hpassed (h.2 latch hrecorded)] at hnot
  cases hnot

end Passing

def ServiceCall.reports : {ρ : Type} → ServiceCall ρ → Except Failure ρ → Option ExtractionLatch
  | _, .inr (.recordExtractionSignal _), reply => reply.toOption
  | _, _, _ => none

def ServiceCall.passes : {ρ : Type} → ServiceCall ρ → Except Failure ρ → Bool
  | _, .inr (.refreshDerivedRelations _), reply => reply.isOk
  | _, _, _ => false

def Passing.next (st : Passing) {ρ : Type} (op : ServiceCall ρ) (reply : Except Failure ρ) :
    Passing where
  recorded := (ServiceCall.reports op reply).or st.recorded
  passed := ServiceCall.passes op reply || st.passed

/-- The latch is addressed by the key of the delivery, the pass follows the recorded signal,
    and the ack comes last.  The durable protocol is not used. -/
def Passing.allows (d : Delivery) (st : Passing) : {ρ : Type} → ServiceCall ρ → Prop
  | _, .inl (.recordPurgeVeto version) => extractionLatchKey d = some version
  | _, .inl (.recordDurableSignal _ _) => False
  | _, .inl .ack => ∀ version, extractionLatchKey d = some version → st.Done
  | _, .inr (.recordExtractionSignal version) => extractionLatchKey d = some version
  | _, .inr (.refreshDerivedRelations version) =>
    extractionLatchKey d = some version ∧ st.recorded.isSome = true
  | _, _ => True

/-- A process with a connection pool and the declared latch. -/
def Equipped : {ρ : Type} → ServiceCall ρ → Except Failure ρ → Prop
  | _, .inl .connectionPool, reply => reply = .ok true
  | _, .inl .latchDeclared, reply => reply = .ok true
  | _, _, _ => True

abbrev Passes {α : Type} (d : Delivery) (p : Service α) (Q : Passing → Except Failure α → Prop)
    (st : Passing) : Prop :=
  p.wpWhen (fun op reply => Equipped op reply) (fun st _ op => st.allows d op)
    (fun st _ op reply => st.next op reply) Q st

variable {d : Delivery} {st : Passing}

/-- The calls both modes make change nothing. -/
theorem passes_inBoth {α : Type} {p : Handler α} {Q : Passing → Except Failure α → Prop}
    (hp : p.Only fun op => st.allows d (.inl op)) (hQ : ∀ r, Q st r) : Passes d (inBoth p) Q st :=
  wpWhen_lift hp (fun _ _ => rfl) hQ

theorem passes_await {ρ : Type} {op : Call ρ} {Q : Passing → Except Failure ρ → Prop}
    (hallow : st.allows d (.inl op)) (hQ : ∀ r, Equipped (.inl op) r → Q st r) :
    Passes d (inBoth (await op)) Q st := by
  refine ⟨hallow, fun r hr => ?_⟩
  cases r with
  | ok a => exact hQ (.ok a) hr
  | error e => exact hQ (.error e) hr

/-! ## The parts of the handler -/

theorem only_latchAtHand : latchAtHand.Only fun op => st.allows d (.inl op) := by
  refine only_bind (only_await trivial) fun pool => ?_
  cases pool with
  | false => trivial
  | true => exact only_await trivial

theorem only_recordedVetoReason : (recordedVetoReason d).Only fun op => st.allows d (.inl op) := by
  unfold recordedVetoReason
  cases extractionLatchKey d with
  | none => trivial
  | some version =>
    refine only_bind only_latchAtHand fun atHand => ?_
    cases atHand with
    | false => trivial
    | true =>
      exact only_tryCatch (only_bind (only_await trivial) fun _ => trivial) fun _ => trivial

theorem only_purgeVetoReason : (purgeVetoReason d).Only fun op => st.allows d (.inl op) := by
  have hqueue : (await .deadLettersWaiting >>= deadLetterReason d).Only
      fun op => st.allows d (.inl op) := by
    refine only_bind (only_await trivial) fun waiting => ?_
    match waiting with
    | some 0 => exact only_recordedVetoReason
    | none => trivial
    | some (waiting + 1) => trivial
  refine only_bind (only_await trivial) fun processor => ?_
  cases processor with
  | false => exact hqueue
  | true =>
    refine only_bind (only_await trivial) fun nacked => ?_
    cases nacked with
    | false => exact hqueue
    | true => trivial

theorem only_persistPurgeVeto : (persistPurgeVeto d).Only fun op => st.allows d (.inl op) := by
  unfold persistPurgeVeto
  cases hkey : extractionLatchKey d with
  | none => trivial
  | some version =>
    refine only_bind only_latchAtHand fun atHand => ?_
    cases atHand with
    | false => trivial
    | true =>
      refine only_tryCatch (only_bind (only_await trivial) fun admission => ?_) fun _ => trivial
      cases admission with
      | false => trivial
      | true => exact only_bind (only_await hkey) fun _ => trivial

theorem only_purgeOrVeto (reason : Option String) :
    (purgeOrVeto d reason).Only fun op => st.allows d (.inl op) := by
  cases reason with
  | some reason => exact only_persistPurgeVeto
  | none =>
    refine only_bind (only_await trivial) fun pool => ?_
    cases pool with
    | false => trivial
    | true => exact only_tryCatch (only_bind (only_await trivial) fun _ => trivial) fun _ => trivial

theorem only_acknowledge (vetoed : Bool) (hdone : ∀ version, extractionLatchKey d = some version → st.Done) :
    (acknowledge d vetoed).Only fun op => st.allows d (.inl op) := by
  have hpublish : ∀ counted, (publishPurgeVetoes d.dataType counted).Only fun op => st.allows d (.inl op) := by
    intro counted
    cases counted with
    | none => trivial
    | some consecutive =>
      refine only_bind (only_await trivial) fun _ => ?_
      split
      · exact only_await trivial
      · trivial
  have hreport : (reportPurgeVetoes d.dataType).Only fun op => st.allows d (.inl op) := by
    refine only_bind (only_await trivial) fun admission => ?_
    refine only_bind only_latchAtHand fun atHand => ?_
    cases atHand && admission with
    | false => trivial
    | true =>
      exact only_bind (only_tryCatch (only_bind (only_await trivial) fun _ => trivial) fun _ => trivial)
        hpublish
  have hrest : (do
      await .ack
      let processor ← await .batchProcessor
      if vetoed && processor then await .resetDlqNacks
      reportPurgeVetoes d.dataType : Handler Unit).Only fun op => st.allows d (.inl op) := by
    refine only_bind (only_await hdone) fun _ => only_bind (only_await trivial) fun processor => ?_
    cases vetoed && processor with
    | false => exact hreport
    | true => exact only_bind (only_await trivial) fun _ => hreport
  refine only_bind (only_await trivial) fun due => ?_
  cases due with
  | false => exact hrest
  | true => exact only_bind (only_await trivial) fun _ => hrest

/-- The signal is recorded before the pass, and `true` means that neither raised. -/
theorem signalAndRefresh_passes {version : String} (hkey : extractionLatchKey d = some version) :
    Passes d (signalAndRefresh version) (fun st r => r = .ok true → st.Done) st := by
  refine (wpWhen_bind _ _ _ _).2 (passes_inBoth (only_await trivial) fun r => ?_)
  cases r with
  | error e => exact fun h => nomatch h
  | ok admission =>
    cases admission with
    | false => exact fun h => nomatch h
    | true =>
      refine (wpWhen_bind _ _ _ _).2 ((wpWhen_await _ _ _).2 ⟨hkey, fun r _ => ?_⟩)
      cases r with
      | error e => exact fun h => nomatch h
      | ok latch =>
        cases hshould : latch.shouldRefresh dataTypes with
        | false =>
          simp only [hshould, Bool.false_eq_true, if_false]
          intro _
          exact ⟨latch, rfl, fun h => by rw [hshould] at h; cases h⟩
        | true =>
          simp only [hshould, if_true]
          refine (wpWhen_bind _ _ _ _).2 ((wpWhen_await _ _ _).2 ⟨⟨hkey, rfl⟩, fun r _ => ?_⟩)
          cases r with
          | error e => exact fun h => nomatch h
          | ok _ => exact fun _ => ⟨latch, rfl, fun _ => rfl⟩

theorem refreshInline_passes :
    Passes d (refreshInline d)
      (fun st r => r = .ok true → ∀ version, extractionLatchKey d = some version → st.Done) st := by
  refine (wpWhen_bind _ _ _ _).2 (passes_await trivial fun pool hpool => ?_)
  obtain rfl : pool = .ok true := hpool
  refine (wpWhen_bind _ _ _ _).2 (passes_await trivial fun declared hdeclared => ?_)
  obtain rfl : declared = .ok true := hdeclared
  simp only [Bool.and_self, Bool.not_true, Bool.false_eq_true, if_false]
  cases hkey : extractionLatchKey d with
  | none => exact fun _ _ h => nomatch h
  | some version =>
    refine (wpWhen_tryCatch _ _ _ _).2 (wpWhen_mono (signalAndRefresh_passes hkey) ?_)
    intro st' r hdone
    cases r with
    | ok refreshed => exact fun h _ _ => hdone h
    | error e => exact fun h => nomatch h

theorem purgeAndRefresh_passes : Passes d (purgeAndRefresh d) (fun _ _ => True) st := by
  refine (wpWhen_bind _ _ _ _).2 (passes_inBoth only_purgeVetoReason fun r => ?_)
  cases r with
  | error e => trivial
  | ok reason =>
    refine (wpWhen_bind _ _ _ _).2 (passes_inBoth (only_purgeOrVeto reason) fun r => ?_)
    cases r with
    | error e => trivial
    | ok purgeOk =>
      cases purgeOk with
      | false => exact passes_await trivial fun _ _ => trivial
      | true =>
        refine (wpWhen_bind _ _ _ _).2 (wpWhen_mono refreshInline_passes ?_)
        intro st' r hdone
        cases r with
        | error e => trivial
        | ok refreshOk =>
          cases refreshOk with
          | false => exact passes_await trivial fun _ _ => trivial
          | true => exact passes_inBoth (only_acknowledge reason.isSome (hdone rfl)) fun _ => trivial

theorem processExtractionCompleteInline_passes :
    Passes d (processExtractionCompleteInline d) (fun _ _ => True) st := by
  have hrest : ∀ flushed, Passes d (if !flushed then inBoth (await (.nack true)) else purgeAndRefresh d)
      (fun _ _ => True) st := by
    intro flushed
    cases flushed with
    | false => exact passes_await trivial fun _ _ => trivial
    | true => exact purgeAndRefresh_passes
  refine (wpWhen_bind _ _ _ _).2 (passes_await trivial fun processor _ => ?_)
  cases processor with
  | error e => trivial
  | ok processor =>
    cases processor with
    | false => exact hrest true
    | true =>
      refine (wpWhen_bind _ _ _ _).2 (passes_await trivial fun flushed _ => ?_)
      cases flushed with
      | error e => trivial
      | ok flushed => exact hrest flushed

/-- An inline handler acks a named extraction only when its signal is recorded and its pass,
    if the reply asked for one, has returned. -/
theorem processDataMessageInline_passes :
    Passes d (processDataMessageInline d) (fun _ _ => True) .start := by
  refine (wpWhen_bind _ _ _ _).2 (passes_await trivial fun shutdown _ => ?_)
  cases shutdown with
  | error e => trivial
  | ok shutdown =>
    cases shutdown with
    | true => trivial
    | false =>
      refine (wpWhen_tryCatch _ _ _ _).2 (wpWhen_mono processExtractionCompleteInline_passes ?_)
      intro st' r _
      cases r with
      | ok _ => trivial
      | error e => exact passes_await trivial fun _ _ => trivial

end Tableinator.Durable
