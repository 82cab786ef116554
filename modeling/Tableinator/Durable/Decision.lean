import Tableinator.Effect.Trace
import Tableinator.Durable.Deployment

/-! # The purge decision

What a handler of either mode has learned when it purges and when it acks.  The reason
to veto a purge is read from a process flag, the depth of the dead-letter queue and the
latch, in that order; a handler purges only after it read the latch and found no veto,
and it acks only after the veto it found is committed. -/

namespace Tableinator.Durable

open Relational Effect Effect.Program

/-- What a handler has learned: `declared` while every look at the pool and the latch
    relation found them, `vetoed` once a reply gave a reason, `cleared` once the latch was read without a
    veto, `persisted` once the veto is committed. -/
structure Decision where
  declared : Bool
  vetoed : Bool
  cleared : Bool
  persisted : Bool

/-- Before the first call. -/
def Decision.start : Decision := ⟨true, false, false, false⟩

-- A reply that shows the pool or the latch relation, or says nothing about them.
def ServiceCall.declares : {ρ : Type} → ServiceCall ρ → Except Failure ρ → Bool
  | _, .inl .connectionPool, .ok pool => pool
  | _, .inl .connectionPool, .error _ => false
  | _, .inl .latchDeclared, .ok declared => declared
  | _, .inl .latchDeclared, .error _ => false
  | _, _, _ => true

def ServiceCall.clears : {ρ : Type} → ServiceCall ρ → Except Failure ρ → Bool
  | _, .inl (.purgeWasVetoed _), .ok vetoed => !vetoed
  | _, _, _ => false

def ServiceCall.persists : {ρ : Type} → ServiceCall ρ → Except Failure ρ → Bool
  | _, .inl (.recordPurgeVeto _), .ok _ => true
  | _, _, _ => false

/-- How the reply to a call moves the decision. -/
def Decision.next (st : Decision) {ρ : Type} (op : ServiceCall ρ) (reply : Except Failure ρ) :
    Decision where
  declared := st.declared && ServiceCall.declares op reply
  vetoed := st.vetoed || ServiceCall.vetoes op reply
  cleared := st.cleared || ServiceCall.clears op reply
  persisted := st.persisted || ServiceCall.persists op reply

/-- The latch is addressed by the key of the delivery; with a declared latch the purge
    needs a clear reading and the ack a committed veto, if there is one. -/
def Decision.allows (d : Delivery) (st : Decision) : {ρ : Type} → ServiceCall ρ → Prop
  | _, .inl (.purgeWasVetoed version) => extractionLatchKey d = some version
  | _, .inl (.recordPurgeVeto version) => extractionLatchKey d = some version
  | _, .inl (.purgeStaleRows _ _) => st.declared = true → st.cleared = true
  | _, .inl .ack => st.declared = true → st.vetoed = true → st.persisted = true
  | _, _ => True

abbrev Decides {α : Type} (d : Delivery) (p : Service α)
    (Q : Decision → Except Failure α → Prop) (st : Decision) : Prop :=
  p.wp (fun st _ op => st.allows d op) (fun st _ op r => st.next op r) Q st

/-- The same of a part both modes run. -/
abbrev DecidesBoth {α : Type} (d : Delivery) (p : Handler α)
    (Q : Decision → Except Failure α → Prop) (st : Decision) : Prop :=
  p.wp (fun st _ op => st.allows d (.inl op)) (fun st _ op r => st.next (.inl op) r) Q st

/-- `purge_veto_reason` returned: a reason if one was found, else the latch was clear. -/
def Decision.Reasoned (st : Decision) (reason : Option String) : Prop :=
  st.declared = true → st.vetoed = reason.isSome ∧ (reason = none → st.cleared = true)

/-- The veto, if there is one, is committed. -/
def Decision.Kept (st : Decision) : Prop :=
  st.declared = true → st.vetoed = true → st.persisted = true

variable {d : Delivery} {version : String} {st : Decision}

theorem latchAtHand_decides :
    DecidesBoth d latchAtHand
      (fun st' r => st'.vetoed = st.vetoed ∧ (r = .ok false → st'.declared = false)) st := by
  have hsame : ∀ (pool : Except Failure Bool), (st.next (.inl .connectionPool) pool).vetoed = st.vetoed := by
    intro pool
    simp [Decision.next, ServiceCall.vetoes]
  refine (wp_bind _ _ _ _).2 ((wp_await _ _ _).2 ⟨trivial, ?_, fun e => ⟨hsame _, fun h => by cases h⟩⟩)
  intro pool
  cases pool with
  | false => exact ⟨hsame _, fun _ => by simp [Decision.next, ServiceCall.declares]⟩
  | true =>
    refine (wp_await _ _ _).2 ⟨trivial, fun declared => ?_, fun e => ⟨?_, fun h => by cases h⟩⟩
    · refine ⟨by simp [Decision.next, ServiceCall.vetoes], fun h => ?_⟩
      cases h
      simp [Decision.next, ServiceCall.declares]
    · simp [Decision.next, ServiceCall.vetoes]

theorem recordedVetoReason_decides (hkey : extractionLatchKey d = some version)
    (hopen : st.vetoed = false) :
    DecidesBoth d (recordedVetoReason d)
      (fun st r => ∀ reason, r = .ok reason → st.Reasoned reason) st := by
  unfold recordedVetoReason
  rw [hkey]
  refine (wp_bind _ _ _ _).2 (wp_mono latchAtHand_decides ?_)
  rintro st' (e | atHand) ⟨hsame, hmissing⟩
  · exact fun reason h => by cases h
  cases atHand with
  | false =>
    intro reason h hdeclared
    rw [hmissing rfl] at hdeclared
    cases hdeclared
  | true =>
    have hopen' : st'.vetoed = false := hsame.trans hopen
    refine (wp_tryCatch _ _ _ _).2 ((wp_bind _ _ _ _).2 ((wp_await _ _ _).2 ⟨hkey, ?_, ?_⟩))
    · intro vetoed reason h _
      cases h
      cases vetoed with
      | false =>
        exact ⟨by simp [Decision.next, ServiceCall.vetoes, hopen'],
          fun _ => by simp [Decision.next, ServiceCall.clears]⟩
      | true => exact ⟨by simp [Decision.next, ServiceCall.vetoes], fun h => by cases h⟩
    · intro e reason h _
      cases h
      exact ⟨by simp [Decision.next, ServiceCall.vetoes], fun h => by cases h⟩

theorem deadLetterReason_decides (hkey : extractionLatchKey d = some version)
    (waiting : Option Nat) (h : st.vetoed = (waiting != some 0)) :
    DecidesBoth d (deadLetterReason d waiting)
      (fun st r => ∀ reason, r = .ok reason → st.Reasoned reason) st := by
  match waiting with
  | some 0 => exact recordedVetoReason_decides hkey h
  | none =>
    intro reason hreason _
    cases hreason
    exact ⟨h, fun h => by cases h⟩
  | some (waiting + 1) =>
    have hsome : (some (waiting + 1) != some 0) = true := bne_iff_ne.2 (by simp)
    intro reason hreason _
    cases hreason
    exact ⟨h.trans hsome, fun h => by cases h⟩

theorem purgeVetoReason_decides (hkey : extractionLatchKey d = some version)
    (hopen : st.vetoed = false) :
    DecidesBoth d (purgeVetoReason d)
      (fun st r => ∀ reason, r = .ok reason → st.Reasoned reason) st := by
  -- The dead-letter queue is read after the process flag, if that is not set.
  have hqueue : ∀ st : Decision, st.vetoed = false →
      DecidesBoth d (await .deadLettersWaiting >>= deadLetterReason d)
        (fun st r => ∀ reason, r = .ok reason → st.Reasoned reason) st := by
    intro st hopen
    refine (wp_bind _ _ _ _).2 ((wp_await _ _ _).2 ⟨trivial, ?_, fun _ _ h => by cases h⟩)
    intro waiting
    exact deadLetterReason_decides hkey waiting (by simp [Decision.next, ServiceCall.vetoes, hopen])
  refine (wp_bind _ _ _ _).2 ((wp_await _ _ _).2 ⟨trivial, ?_, fun _ _ h => by cases h⟩)
  intro processor
  have hstill : (st.next (.inl .batchProcessor) (.ok processor)).vetoed = false := by
    simp [Decision.next, ServiceCall.vetoes, hopen]
  cases processor with
  | false => exact hqueue _ hstill
  | true =>
    refine (wp_bind _ _ _ _).2 ((wp_await _ _ _).2 ⟨trivial, ?_, fun _ _ h => by cases h⟩)
    intro nacked
    cases nacked with
    | false => exact hqueue _ (by simp [Decision.next, ServiceCall.vetoes, hopen])
    | true =>
      intro reason h _
      cases h
      exact ⟨by simp [Decision.next, ServiceCall.vetoes], fun h => by cases h⟩

theorem persistPurgeVeto_decides (hkey : extractionLatchKey d = some version) :
    DecidesBoth d (persistPurgeVeto d) (fun st r => r = .ok true → st.Kept) st := by
  unfold persistPurgeVeto
  rw [hkey]
  refine (wp_bind _ _ _ _).2 (wp_mono latchAtHand_decides ?_)
  rintro st' (e | atHand) ⟨-, hmissing⟩
  · exact fun h => by cases h
  cases atHand with
  | false =>
    intro _ hdeclared
    rw [hmissing rfl] at hdeclared
    cases hdeclared
  | true =>
    refine (wp_tryCatch _ _ _ _).2 ((wp_bind _ _ _ _).2 ((wp_await _ _ _).2 ⟨trivial, ?_, ?_⟩))
    · intro admission
      refine (wp_ite _ _ _ _ _).2 ⟨fun _ h => (by cases h), fun _ => ?_⟩
      refine (wp_bind _ _ _ _).2 ((wp_await _ _ _).2 ⟨hkey, ?_, ?_⟩)
      · intro _ _ _ _
        simp [Decision.next, ServiceCall.persists]
      · intro e h
        cases h
    · intro e h
      cases h

theorem purgeOrVeto_decides (hkey : extractionLatchKey d = some version)
    {reason : Option String} (hreasoned : st.Reasoned reason) :
    DecidesBoth d (purgeOrVeto d reason) (fun st r => r = .ok true → st.Kept) st := by
  cases reason with
  | some reason => exact persistPurgeVeto_decides hkey
  | none =>
    -- Without a reason there is nothing to keep, and the latch was clear.
    have hquiet : ∀ st' : Decision, (st'.declared = true → st.declared = true) →
        st'.vetoed = st.vetoed → st'.Kept := by
      intro st' hdeclared hvetoed hd hv
      rw [hvetoed, (hreasoned (hdeclared hd)).1] at hv
      cases hv
    refine (wp_bind _ _ _ _).2 ((wp_await _ _ _).2 ⟨trivial, ?_, fun _ h => by cases h⟩)
    intro pool
    have hstill : (st.next (.inl .connectionPool) (.ok pool)).declared = true → st.declared = true := by
      intro hdeclared
      exact (Bool.and_eq_true_iff.1 hdeclared).1
    refine (wp_ite _ _ _ _ _).2 ⟨fun _ _ => hquiet _ hstill ?_, fun _ => ?_⟩
    · simp [Decision.next, ServiceCall.vetoes]
    refine (wp_tryCatch _ _ _ _).2 ((wp_bind _ _ _ _).2 ((wp_await _ _ _).2 ⟨?_, ?_, ?_⟩))
    · intro hdeclared
      have hclear := (hreasoned (hstill hdeclared)).2 rfl
      simp [Decision.next, hclear]
    · intro _ _
      refine hquiet _ (fun hdeclared => hstill (Bool.and_eq_true_iff.1 hdeclared).1) ?_
      simp [Decision.next, ServiceCall.vetoes]
    · intro e h
      cases h

/-- The calls after the purge: none of them is a reason to veto. -/
def ServiceCall.settles : {ρ : Type} → ServiceCall ρ → Prop
  | _, .inl .hadDlqNacks => False
  | _, .inl .deadLettersWaiting => False
  | _, .inl (.purgeWasVetoed _) => False
  | _, .inl (.recordPurgeVeto _) => False
  | _, .inl (.purgeStaleRows _ _) => False
  | _, _ => True

theorem Decision.Kept.settles (hkept : st.Kept) {ρ : Type} {op : ServiceCall ρ}
    (hop : ServiceCall.settles op) : st.allows d op ∧ ∀ r, (st.next op r).Kept := by
  have hsilent : ∀ r, ServiceCall.vetoes op r = false := by
    intro r
    match ρ, op with
    | _, .inr _ => rfl
    | _, .inl op => cases op <;> first | rfl | exact absurd hop id
  constructor
  · match ρ, op with
    | _, .inr _ => trivial
    | _, .inl op => cases op <;> trivial
  · intro r hdeclared hvetoed
    simp only [Decision.next, hsilent, Bool.or_false, Bool.and_eq_true] at hdeclared hvetoed
    simp [Decision.next, hkept hdeclared.1 hvetoed]

theorem decides_of_only {α : Type} {p : Service α} (hp : p.Only ServiceCall.settles)
    (hkept : st.Kept) : Decides d p (fun st _ => st.Kept) st :=
  wp_of_only (fun _ _ _ hop hkept => hkept.settles hop) hp hkept

theorem decidesBoth_of_only {α : Type} {p : Handler α}
    (hp : p.Only fun op => ServiceCall.settles (.inl op)) (hkept : st.Kept) :
    DecidesBoth d p (fun st _ => st.Kept) st :=
  wp_of_only (fun _ _ _ hop hkept => hkept.settles hop) hp hkept

theorem handOff_settles (d : Delivery) : (handOff d).Only fun op => ServiceCall.settles (.inl op) := by
  simp [Only, handOff, ServiceCall.settles]

theorem acknowledge_settles (d : Delivery) (vetoed : Bool) :
    (acknowledge d vetoed).Only fun op => ServiceCall.settles (.inl op) := by
  simp [Only, acknowledge, reportPurgeVetoes, publishPurgeVetoes, latchAtHand, ServiceCall.settles]

theorem refreshInline_settles (d : Delivery) : (refreshInline d).Only ServiceCall.settles := by
  unfold refreshInline
  cases extractionLatchKey d with
  | none => simp [Only, ServiceCall.settles]
  | some version => simp [Only, signalAndRefresh, ServiceCall.settles]

theorem requeue_decides (handOffFailed : Bool) (version : String) :
    DecidesBoth d (requeue handOffFailed version) (fun _ _ => True) st := by
  simp [requeue, Decision.allows]

theorem purgeAndHandOff_decides (hkey : extractionLatchKey d = some version)
    (hopen : st.vetoed = false) (v : String) :
    DecidesBoth d (purgeAndHandOff d v) (fun _ _ => True) st := by
  refine (wp_bind _ _ _ _).2 (wp_mono (purgeVetoReason_decides hkey hopen) ?_)
  rintro st (e | reason) hreasoned
  · trivial
  refine (wp_bind _ _ _ _).2 (wp_mono (purgeOrVeto_decides hkey (hreasoned reason rfl)) ?_)
  rintro st (e | purgeOk) hkept
  · trivial
  cases purgeOk with
  | false => exact requeue_decides false v
  | true =>
    refine (wp_bind _ _ _ _).2 (wp_mono (decidesBoth_of_only (handOff_settles d) (hkept rfl)) ?_)
    rintro st (e | refreshOk) hkept
    · trivial
    cases refreshOk with
    | false => exact requeue_decides true v
    | true =>
      exact wp_mono (decidesBoth_of_only (acknowledge_settles d reason.isSome) hkept) fun _ _ _ => trivial

theorem purgeAndRefresh_decides (hkey : extractionLatchKey d = some version)
    (hopen : st.vetoed = false) : Decides d (purgeAndRefresh d) (fun _ _ => True) st := by
  have hnack : ∀ st : Decision, Decides d (inBoth (await (.nack true))) (fun _ _ => True) st := by
    intro st
    exact (wp_lift _ _ _ _).2 (by simp [Decision.allows])
  refine (wp_bind _ _ _ _).2 ((wp_lift _ _ _ _).2 (wp_mono (purgeVetoReason_decides hkey hopen) ?_))
  rintro st (e | reason) hreasoned
  · trivial
  refine (wp_bind _ _ _ _).2
    ((wp_lift _ _ _ _).2 (wp_mono (purgeOrVeto_decides hkey (hreasoned reason rfl)) ?_))
  rintro st (e | purgeOk) hkept
  · trivial
  cases purgeOk with
  | false => exact hnack st
  | true =>
    refine (wp_bind _ _ _ _).2 (wp_mono (decides_of_only (refreshInline_settles d) (hkept rfl)) ?_)
    rintro st (e | refreshOk) hkept
    · trivial
    cases refreshOk with
    | false => exact hnack st
    | true =>
      refine (wp_lift _ _ _ _).2 ?_
      exact wp_mono (decidesBoth_of_only (acknowledge_settles d reason.isSome) hkept) fun _ _ _ => trivial

/-- What follows the flush sees no veto that was not there before it. -/
theorem flushed_decides {rest : Handler Unit} (hopen : st.vetoed = false)
    (hrest : ∀ st, st.vetoed = false → DecidesBoth d rest (fun _ _ => True) st) :
    DecidesBoth d (do
      let processor ← await .batchProcessor
      let flushed ← if processor then await .flushQueue else pure true
      if !flushed then await (.nack true) else rest) (fun _ _ => True) st := by
  have hsettled : ∀ (flushed : Bool) (st : Decision), st.vetoed = false →
      DecidesBoth d (if !flushed then await (.nack true) else rest) (fun _ _ => True) st := by
    intro flushed st hopen
    exact (wp_ite _ _ _ _ _).2 ⟨fun _ => by simp [Decision.allows], fun _ => hrest st hopen⟩
  refine (wp_bind _ _ _ _).2 ((wp_await _ _ _).2 ⟨trivial, ?_, fun _ => trivial⟩)
  intro processor
  have hstill : (st.next (.inl .batchProcessor) (.ok processor)).vetoed = false := by
    simp [Decision.next, ServiceCall.vetoes, hopen]
  refine (wp_ite _ _ _ _ _).2 ⟨fun _ => ?_, fun _ => hsettled true _ hstill⟩
  refine (wp_bind _ _ _ _).2 ((wp_await _ _ _).2 ⟨trivial, ?_, fun _ => trivial⟩)
  intro flushed
  exact hsettled flushed _ (by simp [Decision.next, ServiceCall.vetoes, hopen])

theorem processExtractionComplete_decides (hkey : extractionLatchKey d = some version)
    (hopen : st.vetoed = false) :
    DecidesBoth d (processExtractionComplete d) (fun _ _ => True) st := by
  unfold processExtractionComplete
  refine flushed_decides hopen fun st hopen => ?_
  cases orderedVersion d.version with
  | error e => simp [Decision.allows]
  | ok v => exact purgeAndHandOff_decides hkey hopen v

theorem processExtractionCompleteInline_decides (hkey : extractionLatchKey d = some version)
    (hopen : st.vetoed = false) :
    Decides d (processExtractionCompleteInline d) (fun _ _ => True) st := by
  have hrest : ∀ (flushed : Bool) (st : Decision), st.vetoed = false →
      Decides d (if !flushed then inBoth (await (.nack true)) else purgeAndRefresh d)
        (fun _ _ => True) st := by
    intro flushed st hopen
    refine (wp_ite _ _ _ _ _).2 ⟨fun _ => (wp_lift _ _ _ _).2 ?_, fun _ => ?_⟩
    · simp [Decision.allows]
    · exact purgeAndRefresh_decides hkey hopen
  refine (wp_bind _ _ _ _).2 ((wp_lift _ _ _ _).2 ((wp_await _ _ _).2 ⟨trivial, ?_, fun _ => trivial⟩))
  intro processor
  have hstill : (st.next (.inl .batchProcessor) (.ok processor)).vetoed = false := by
    simp [Decision.next, ServiceCall.vetoes, hopen]
  refine (wp_ite _ _ _ _ _).2 ⟨fun _ => ?_, fun _ => hrest true _ hstill⟩
  refine (wp_bind _ _ _ _).2 ((wp_lift _ _ _ _).2 ((wp_await _ _ _).2 ⟨trivial, ?_, fun _ => trivial⟩))
  intro flushed
  exact hrest flushed _ (by simp [Decision.next, ServiceCall.vetoes, hopen])

/-- The handler of either mode. -/
theorem process_decides (hkey : extractionLatchKey d = some version) (mode : RefreshMode) :
    Decides d (mode.process d) (fun _ _ => True) .start := by
  have hopen : ∀ shutdown, (Decision.start.next (.inl .shutdownRequested) (.ok shutdown)).vetoed = false := by
    intro shutdown
    simp [Decision.next, ServiceCall.vetoes, Decision.start]
  cases mode with
  | durable =>
    refine (wp_lift _ _ _ _).2 ?_
    refine (wp_bind _ _ _ _).2 ((wp_await _ _ _).2 ⟨trivial, ?_, fun _ => trivial⟩)
    intro shutdown
    refine (wp_ite _ _ _ _ _).2 ⟨fun _ => trivial, fun _ => (wp_tryCatch _ _ _ _).2 ?_⟩
    refine wp_mono (processExtractionComplete_decides hkey (hopen shutdown)) ?_
    rintro st (e | _) _
    · simp [Decision.allows]
    · trivial
  | inline =>
    refine (wp_bind _ _ _ _).2
      ((wp_lift _ _ _ _).2 ((wp_await _ _ _).2 ⟨trivial, ?_, fun _ => trivial⟩))
    intro shutdown
    refine (wp_ite _ _ _ _ _).2 ⟨fun _ => trivial, fun _ => (wp_tryCatch _ _ _ _).2 ?_⟩
    refine wp_mono (processExtractionCompleteInline_decides hkey (hopen shutdown)) ?_
    rintro st (e | _) _
    · exact (wp_lift _ _ _ _).2 (by simp [Decision.allows])
    · trivial

end Tableinator.Durable
