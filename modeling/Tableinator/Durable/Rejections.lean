import Tableinator.Effect.Trace
import Tableinator.Durable.Deployment

/-! # The rejection flag

`PostgreSQLBatchObserver` keeps one flag per data type: a record of the type was sent to
the dead-letter queue.  The `extraction_complete` handler reads it first in its veto
decision and clears it last, after the ack, and every call in between may let a
rejection of the same type through.  The clear does not look whether the flag was set
again, so a rejection in that window is forgotten. -/

namespace Tableinator.Durable

open Relational Effect Effect.Program

/-- What happened to the flag of a type, as far as its readers are concerned. -/
inductive FlagEntry where
  | rejected (dataType : DataType)
  | decided (dataType : DataType) (nacked : Bool)
  deriving DecidableEq

/-- A rejection of the type is newer than every veto decision of it. -/
def rejectedSince (t : DataType) : List FlagEntry → Bool
  | [] => false
  | .rejected t' :: older => t' == t || rejectedSince t older
  | .decided t' _ :: older => t' != t && rejectedSince t older

/-- A handling in this process: whether it took its decision, and whether a record of its
    type was rejected after that without another handling of the type deciding since. -/
structure Deciding where
  delivery : Delivery
  decided : Bool
  disturbed : Bool
  program : Service Unit

/-- A process with a batch processor. -/
structure Observer where
  hadDlqNacks : DataType → Bool
  handlings : List Deciding
  /-- Rejections and decisions, newest first. -/
  log : List FlagEntry

inductive FlagEvent : Type 1 where
  | reject (dataType : DataType)
  | deliver (mode : RefreshMode) (d : Delivery)
  | answer (index : Nat) (reply : ∀ {ρ : Type}, ServiceCall ρ → Except Failure ρ)
  | cancel (index : Nat)

namespace Observer

def start : Observer := ⟨fun _ => false, [], []⟩

/-- `add_message` rejecting, or `settled` with `REJECT`. -/
def reject (t : DataType) (s : Observer) : Observer where
  hadDlqNacks := Function.update s.hadDlqNacks t true
  handlings := s.handlings.map fun h =>
    if h.delivery.dataType = t then { h with disturbed := h.disturbed || h.decided } else h
  log := .rejected t :: s.log

/-- A veto decision of the type reads the flag: whatever was rejected before, it saw. -/
def decide (t : DataType) (s : Observer) : Observer where
  hadDlqNacks := s.hadDlqNacks
  handlings := s.handlings.map fun h =>
    if h.delivery.dataType = t then { h with disturbed := false } else h
  log := .decided t (s.hadDlqNacks t) :: s.log

/-- How the process answers a call that concerns the flag. -/
def perform (d : Delivery) (reply : ∀ {ρ : Type}, ServiceCall ρ → Except Failure ρ)
    (s : Observer) : {ρ : Type} → ServiceCall ρ → Except Failure ρ × Observer
  | _, .inl .batchProcessor => (.ok true, s)
  | _, .inl .hadDlqNacks =>
    (.ok (s.hadDlqNacks d.dataType), s.decide d.dataType)
  | _, .inl .resetDlqNacks =>
    (.ok (), { s with hadDlqNacks := Function.update s.hadDlqNacks d.dataType false })
  | _, op => (reply op, s)

def takesDecision : {ρ : Type} → ServiceCall ρ → Bool
  | _, .inl .hadDlqNacks => true
  | _, _ => false

def resets : {ρ : Type} → ServiceCall ρ → Bool
  | _, .inl .resetDlqNacks => true
  | _, _ => false

def answerStep (s : Observer) (index : Nat)
    (reply : ∀ {ρ : Type}, ServiceCall ρ → Except Failure ρ) : Deciding → Option Observer
  | ⟨d, decided, disturbed, .call op k⟩ =>
    let (result, s') := s.perform d reply op
    -- A decision starts the window of the handling.
    let next : Deciding :=
      ⟨d, decided || takesDecision op, disturbed && !takesDecision op, k result⟩
    some { s' with handlings := s'.handlings.set index next }
  | _ => none

def step (s : Observer) : FlagEvent → Option Observer
  | .reject t => some (s.reject t)
  | .deliver mode d => some { s with handlings := ⟨d, false, false, mode.process d⟩ :: s.handlings }
  | .answer index reply => (s.handlings[index]?).bind (s.answerStep index reply)
  | .cancel index => some { s with handlings := s.handlings.eraseIdx index }

/-- The runs whose events all meet a condition on the state before them. -/
abbrev Run (ok : Observer → FlagEvent → Prop) : Observer → Observer → Prop := RunOf step ok

def clears (h : Deciding) : Bool :=
  match h.program with
  | .call op _ => resets op
  | _ => false

/-- A handling that clears the flag saw no rejection of its type since its decision. -/
def ResetsUndisturbed (s : Observer) : FlagEvent → Prop
  | .answer index _ => ∀ h ∈ s.handlings[index]?, clears h = true → h.disturbed = false
  | _ => True

/-- Every decision after a rejection of its type reads the flag set. -/
def Faithful (log : List FlagEntry) : Prop :=
  ∀ newer t nacked older, log = newer ++ .decided t nacked :: older →
    rejectedSince t older = true → nacked = true

end Observer

/-! ## The flag is read before it is cleared -/

/-- What a handling knows of the flag: it found no batch processor, or it read the flag. -/
structure FlagUse where
  absent : Bool
  decided : Bool

def ServiceCall.findsNone : {ρ : Type} → ServiceCall ρ → Except Failure ρ → Bool
  | _, .inl .batchProcessor, .ok processor => !processor
  | _, .inl .batchProcessor, .error _ => true
  | _, _, _ => false

namespace FlagUse

def next (use : FlagUse) {ρ : Type} (op : ServiceCall ρ) (reply : Except Failure ρ) : FlagUse where
  absent := use.absent || ServiceCall.findsNone op reply
  decided := use.decided || Observer.takesDecision op

def Ready (use : FlagUse) : Prop := use.absent = true ∨ use.decided = true

def allows (use : FlagUse) {ρ : Type} (op : ServiceCall ρ) : Prop :=
  Observer.resets op = true → use.Ready

variable {use : FlagUse}

theorem allows_of_not_resets {ρ : Type} {op : ServiceCall ρ} (h : Observer.resets op = false) :
    use.allows op := by
  intro hresets
  rw [h] at hresets
  cases hresets

@[simp] theorem allows_batchProcessor : use.allows (.inl .batchProcessor) :=
  allows_of_not_resets rfl

@[simp] theorem allows_flushQueue : use.allows (.inl .flushQueue) := allows_of_not_resets rfl

@[simp] theorem allows_nack (requeue : Bool) : use.allows (.inl (.nack requeue)) :=
  allows_of_not_resets rfl

theorem Ready.next (h : use.Ready) {ρ : Type} (op : ServiceCall ρ) (reply : Except Failure ρ) :
    (use.next op reply).Ready := by
  cases h with
  | inl h => exact .inl (by simp [FlagUse.next, h])
  | inr h => exact .inr (by simp [FlagUse.next, h])

end FlagUse

/-- A program that clears the flag only after reading it. -/
abbrev ReadsFirst {α : Type} (p : Service α) (Q : FlagUse → Except Failure α → Prop)
    (use : FlagUse) : Prop :=
  p.wp (fun use _ op => use.allows op) (fun use _ op r => use.next op r) Q use

abbrev ReadsFirstBoth {α : Type} (p : Handler α) (Q : FlagUse → Except Failure α → Prop)
    (use : FlagUse) : Prop :=
  p.wp (fun use _ op => use.allows (.inl op)) (fun use _ op r => use.next (.inl op) r) Q use

variable {use : FlagUse}

/-- After the reading nothing more is asked. -/
theorem readsFirst_of_ready {α : Type} (p : Service α) (h : use.Ready) :
    ReadsFirst p (fun use _ => use.Ready) use := by
  have honly : p.Only fun _ => True := wp_of_forall (fun _ _ _ => trivial) fun _ _ => trivial
  exact wp_of_only (fun _ _ op _ h => ⟨fun _ => h, fun r => h.next op r⟩) honly h

theorem readsFirstBoth_of_ready {α : Type} (p : Handler α) (h : use.Ready) :
    ReadsFirstBoth p (fun use _ => use.Ready) use :=
  (wp_lift _ _ _ _).1 (readsFirst_of_ready (inBoth p) h)

theorem purgeVetoReason_readsFirst (d : Delivery) :
    ReadsFirstBoth (purgeVetoReason d) (fun use r => ∀ reason, r = .ok reason → use.Ready) use := by
  have hrest : ∀ (p : Handler (Option String)) (use : FlagUse), use.Ready →
      ReadsFirstBoth p (fun use r => ∀ reason, r = .ok reason → use.Ready) use := by
    intro p use h
    exact wp_mono (readsFirstBoth_of_ready p h) fun _ _ h _ _ => h
  refine (wp_bind _ _ _ _).2 ((wp_await _ _ _).2 ⟨FlagUse.allows_of_not_resets rfl, ?_, fun _ _ h => (by cases h)⟩)
  intro processor
  cases processor with
  | false => exact hrest _ _ (.inl (by simp [FlagUse.next, ServiceCall.findsNone]))
  | true =>
    refine (wp_bind _ _ _ _).2
      ((wp_await _ _ _).2 ⟨FlagUse.allows_of_not_resets rfl, ?_, fun _ _ h => (by cases h)⟩)
    intro nacked
    exact hrest _ _ (.inr (by simp [FlagUse.next, Observer.takesDecision]))

theorem purgeAndHandOff_readsFirst (d : Delivery) (version : String) :
    ReadsFirstBoth (purgeAndHandOff d version) (fun _ _ => True) use := by
  refine (wp_bind _ _ _ _).2 (wp_mono (purgeVetoReason_readsFirst d) ?_)
  intro use r h
  cases r with
  | error e => trivial
  | ok reason => exact wp_mono (readsFirstBoth_of_ready _ (h reason rfl)) fun _ _ _ => trivial

theorem purgeAndRefresh_readsFirst (d : Delivery) :
    ReadsFirst (purgeAndRefresh d) (fun _ _ => True) use := by
  refine (wp_bind _ _ _ _).2 ((wp_lift _ _ _ _).2 (wp_mono (purgeVetoReason_readsFirst d) ?_))
  intro use r h
  cases r with
  | error e => trivial
  | ok reason => exact wp_mono (readsFirst_of_ready _ (h reason rfl)) fun _ _ _ => trivial

theorem processExtractionComplete_readsFirst (d : Delivery) :
    ReadsFirstBoth (processExtractionComplete d) (fun _ _ => True) use := by
  unfold processExtractionComplete
  cases orderedVersion d.version with
  | error e => simp
  | ok version => simp [purgeAndHandOff_readsFirst]

theorem processExtractionCompleteInline_readsFirst (d : Delivery) :
    ReadsFirst (processExtractionCompleteInline d) (fun _ _ => True) use := by
  simp [processExtractionCompleteInline, purgeAndRefresh_readsFirst]

/-- The handler of either mode. -/
theorem process_readsFirst (d : Delivery) (mode : RefreshMode) :
    ReadsFirst (mode.process d) (fun _ _ => True) use := by
  have hnack : ∀ use : FlagUse, ReadsFirstBoth (await (.nack false)) (fun _ _ => True) use := by
    intro use
    simp
  cases mode with
  | durable =>
    refine (wp_lift _ _ _ _).2 ((wp_bind _ _ _ _).2 ((wp_await _ _ _).2 ⟨FlagUse.allows_of_not_resets rfl, ?_⟩))
    refine ⟨fun shutdown => (wp_ite _ _ _ _ _).2 ⟨fun _ => trivial, fun _ => ?_⟩, fun _ => trivial⟩
    refine (wp_tryCatch _ _ _ _).2 (wp_mono (processExtractionComplete_readsFirst d) ?_)
    intro use r _
    cases r with
    | ok _ => trivial
    | error e => exact hnack use
  | inline =>
    refine (wp_bind _ _ _ _).2
      ((wp_lift _ _ _ _).2 ((wp_await _ _ _).2 ⟨FlagUse.allows_of_not_resets rfl, ?_, fun _ => trivial⟩))
    intro shutdown
    refine (wp_ite _ _ _ _ _).2 ⟨fun _ => trivial, fun _ => (wp_tryCatch _ _ _ _).2 ?_⟩
    refine wp_mono (processExtractionCompleteInline_readsFirst d) ?_
    intro use r _
    cases r with
    | ok _ => trivial
    | error e => exact (wp_lift _ _ _ _).2 (hnack use)

/-! ## Runs -/

namespace Observer

variable {s s' : Observer} {t : DataType} {log : List FlagEntry}

theorem faithful_nil : Faithful [] := by
  intro newer t nacked older h
  cases newer <;> cases h

theorem faithful_rejected (h : Faithful log) : Faithful (.rejected t :: log) := by
  intro newer t' nacked older hlog
  cases newer with
  | nil => cases hlog
  | cons e newer =>
    simp only [List.cons_append, List.cons.injEq] at hlog
    exact h newer t' nacked older hlog.2

theorem faithful_decided {nacked : Bool} (h : Faithful log)
    (hread : rejectedSince t log = true → nacked = true) : Faithful (.decided t nacked :: log) := by
  intro newer t' nacked' older hlog
  cases newer with
  | nil =>
    simp only [List.nil_append, List.cons.injEq, FlagEntry.decided.injEq] at hlog
    obtain ⟨⟨rfl, rfl⟩, rfl⟩ := hlog
    exact hread
  | cons e newer =>
    simp only [List.cons_append, List.cons.injEq] at hlog
    exact h newer t' nacked' older hlog.2

/-- The flag holds every rejection no decision has read, and a handling that may clear it
    knows whether there is one. -/
structure Kept (s : Observer) : Prop where
  flagged : ∀ t, rejectedSince t s.log = true → s.hadDlqNacks t = true
  faithful : Faithful s.log
  noticed : ∀ h ∈ s.handlings, h.decided = true →
    rejectedSince h.delivery.dataType s.log = true → h.disturbed = true
  readsFirst : ∀ h ∈ s.handlings, ReadsFirst h.program (fun _ _ => True) ⟨false, h.decided⟩

theorem start_kept : start.Kept where
  flagged t h := by cases h
  faithful := faithful_nil
  noticed h hh := by cases hh
  readsFirst h hh := by cases hh

theorem reject_kept (hk : s.Kept) : (s.reject t).Kept where
  flagged t' h := by
    by_cases ht : t' = t
    · subst ht
      simp [reject]
    · have hold : rejectedSince t' s.log = true := by
        simpa [reject, rejectedSince, Ne.symm ht] using h
      simp [reject, ht, hk.flagged t' hold]
  faithful := faithful_rejected hk.faithful
  noticed h hh hdecided hsince := by
    obtain ⟨h, hmem, rfl⟩ := List.mem_map.1 hh
    by_cases ht : h.delivery.dataType = t
    · rw [if_pos ht] at hdecided ⊢
      exact Bool.or_eq_true_iff.2 (.inr hdecided)
    · rw [if_neg ht] at hdecided hsince ⊢
      refine hk.noticed h hmem hdecided ?_
      simpa [reject, rejectedSince, Ne.symm ht] using hsince
  readsFirst h hh := by
    obtain ⟨h, hmem, rfl⟩ := List.mem_map.1 hh
    have hreads := hk.readsFirst h hmem
    split <;> exact hreads

theorem decide_kept (hk : s.Kept) : (s.decide t).Kept where
  flagged t' h := by
    refine hk.flagged t' ?_
    simp only [decide, rejectedSince, Bool.and_eq_true] at h
    exact h.2
  faithful := faithful_decided hk.faithful (hk.flagged t)
  noticed h hh hdecided hsince := by
    obtain ⟨h, hmem, rfl⟩ := List.mem_map.1 hh
    by_cases ht : h.delivery.dataType = t
    · rw [if_pos ht] at hsince
      simp [decide, rejectedSince, ht] at hsince
    · rw [if_neg ht] at hdecided hsince ⊢
      simp only [decide, rejectedSince, Bool.and_eq_true] at hsince
      exact hk.noticed h hmem hdecided hsince.2
  readsFirst h hh := by
    obtain ⟨h, hmem, rfl⟩ := List.mem_map.1 hh
    have hreads := hk.readsFirst h hmem
    split <;> exact hreads

/-- Clearing the flag loses nothing once every rejection was read. -/
theorem reset_kept (hk : s.Kept) (hread : rejectedSince t s.log = false) :
    Kept { s with hadDlqNacks := Function.update s.hadDlqNacks t false } where
  flagged t' h := by
    by_cases ht : t' = t
    · subst ht
      rw [show rejectedSince t' s.log = false from hread] at h
      cases h
    · simp [ht, hk.flagged t' h]
  faithful := hk.faithful
  noticed := hk.noticed
  readsFirst := hk.readsFirst

theorem set_kept (hk : s.Kept) (index : Nat) {next : Deciding}
    (hnoticed : next.decided = true → rejectedSince next.delivery.dataType s.log = true →
      next.disturbed = true)
    (hreads : ReadsFirst next.program (fun _ _ => True) ⟨false, next.decided⟩) :
    Kept { s with handlings := s.handlings.set index next } where
  flagged := hk.flagged
  faithful := hk.faithful
  noticed h hh := by
    cases List.mem_or_eq_of_mem_set hh with
    | inl hmem => exact hk.noticed h hmem
    | inr heq => rw [heq]; exact hnoticed
  readsFirst h hh := by
    cases List.mem_or_eq_of_mem_set hh with
    | inl hmem => exact hk.readsFirst h hmem
    | inr heq => rw [heq]; exact hreads

/-- What the process does for a call. -/
theorem perform_cases (d : Delivery) (reply : ∀ {ρ : Type}, ServiceCall ρ → Except Failure ρ)
    (s : Observer) {ρ : Type} (op : ServiceCall ρ) :
    (takesDecision op = true ∧ (s.perform d reply op).2 = s.decide d.dataType) ∨
    (takesDecision op = false ∧ resets op = true ∧ (s.perform d reply op).2 =
      { s with hadDlqNacks := Function.update s.hadDlqNacks d.dataType false }) ∨
    (takesDecision op = false ∧ (s.perform d reply op).2 = s) := by
  match ρ, op with
  | _, .inr _ => exact .inr (.inr ⟨rfl, rfl⟩)
  | _, .inl op =>
    cases op with
    | hadDlqNacks => exact .inl ⟨rfl, rfl⟩
    | resetDlqNacks => exact .inr (.inl ⟨rfl, rfl, rfl⟩)
    | _ => exact .inr (.inr ⟨rfl, rfl⟩)

/-- The batch processor of the process is there. -/
theorem perform_findsNone (d : Delivery) (reply : ∀ {ρ : Type}, ServiceCall ρ → Except Failure ρ)
    (s : Observer) {ρ : Type} (op : ServiceCall ρ) :
    ServiceCall.findsNone op (s.perform d reply op).1 = false := by
  match ρ, op with
  | _, .inr _ => rfl
  | _, .inl op => cases op <;> rfl

theorem answerStep_call (s : Observer) (index : Nat)
    (reply : ∀ {ρ : Type}, ServiceCall ρ → Except Failure ρ) (d : Delivery)
    (decided disturbed : Bool) {ρ : Type} (op : ServiceCall ρ) (k : Except Failure ρ → Service Unit) :
    s.answerStep index reply ⟨d, decided, disturbed, .call op k⟩ =
      some { (s.perform d reply op).2 with
        handlings := (s.perform d reply op).2.handlings.set index
          ⟨d, decided || takesDecision op, disturbed && !takesDecision op,
            k (s.perform d reply op).1⟩ } := rfl

theorem answerStep_kept {index : Nat} {h : Deciding}
    {reply : ∀ {ρ : Type}, ServiceCall ρ → Except Failure ρ}
    (hstep : s.answerStep index reply h = some s') (hmem : h ∈ s.handlings) (hk : s.Kept)
    (hquiet : clears h = true → h.disturbed = false) : s'.Kept := by
  obtain ⟨d, decided, disturbed, program⟩ := h
  have hnoticed := hk.noticed _ hmem
  have hreads := hk.readsFirst _ hmem
  cases program with
  | done a => cases hstep
  | raise e => cases hstep
  | call op k =>
    rw [answerStep_call] at hstep
    obtain rfl := Option.some.inj hstep
    have hrest := hreads.2 (s.perform d reply op).1
    simp only [FlagUse.next, perform_findsNone, Bool.or_false] at hrest
    rcases perform_cases d reply s op with ⟨htakes, heq⟩ | ⟨htakes, hresets, heq⟩ | ⟨htakes, heq⟩
    · rw [heq]
      refine set_kept (decide_kept hk) index (fun _ hsince => ?_) hrest
      simp [decide, rejectedSince] at hsince
    · -- The handling read the flag, and nothing was rejected since.
      have hdecided : decided = true := (hreads.1 hresets).resolve_left (by simp)
      have hread : rejectedSince d.dataType s.log = false := by
        cases hsince : rejectedSince d.dataType s.log with
        | false => rfl
        | true =>
          have hdisturbed : disturbed = true := hnoticed hdecided hsince
          have hundisturbed : disturbed = false := hquiet hresets
          rw [hdisturbed] at hundisturbed
          cases hundisturbed
      rw [heq]
      refine set_kept (reset_kept hk hread) index (fun _ hsince => ?_) hrest
      exact absurd hread (by simp [show rejectedSince d.dataType s.log = true from hsince])
    · rw [heq]
      refine set_kept hk index (fun hdecided hsince => ?_) hrest
      simp only [htakes, Bool.or_false, Bool.not_false, Bool.and_true] at hdecided ⊢
      exact hnoticed hdecided hsince

theorem step_kept {event : FlagEvent} (hstep : s.step event = some s')
    (hok : s.ResetsUndisturbed event) (hk : s.Kept) : s'.Kept := by
  cases event with
  | reject t =>
    cases hstep
    exact reject_kept hk
  | deliver mode d =>
    cases hstep
    refine ⟨hk.flagged, hk.faithful, ?_, ?_⟩
    · intro h hh hdecided
      cases hh with
      | head => cases hdecided
      | tail _ hmem => exact hk.noticed h hmem hdecided
    · intro h hh
      cases hh with
      | head => exact process_readsFirst d mode
      | tail _ hmem => exact hk.readsFirst h hmem
  | answer index reply =>
    obtain ⟨h, hget, hanswer⟩ := Option.bind_eq_some_iff.1 hstep
    exact answerStep_kept hanswer (List.mem_of_getElem? hget) hk (hok h hget)
  | cancel index =>
    cases hstep
    exact ⟨hk.flagged, hk.faithful, fun h hh => hk.noticed h (List.mem_of_mem_eraseIdx hh),
      fun h hh => hk.readsFirst h (List.mem_of_mem_eraseIdx hh)⟩

theorem run_kept (h : Run ResetsUndisturbed s s') (hk : s.Kept) : s'.Kept := by
  induction h with
  | refl => exact hk
  | tail _ hstep ih =>
    obtain ⟨event, hok, hstep⟩ := hstep
    exact step_kept hstep hok ih

/-- A rejection is seen by the next decision of its type, unless it falls between the
    decision of a handling and the moment that handling clears the flag. -/
theorem rejection_reaches_next_decision (h : Run ResetsUndisturbed start s) : Faithful s.log :=
  (run_kept h start_kept).faithful

instance (s : Observer) (event : FlagEvent) : Decidable (s.ResetsUndisturbed event) :=
  match event with
  | .answer index _ =>
    inferInstanceAs (Decidable (∀ h ∈ s.handlings[index]?, clears h = true → h.disturbed = false))
  | .reject _ => .isTrue trivial
  | .deliver _ _ => .isTrue trivial
  | .cancel _ => .isTrue trivial

/-- Three records of the type wait in the dead-letter queue, and every call succeeds. -/
def waitingReply : {ρ : Type} → ServiceCall ρ → Except Failure ρ
  | _, .inl .deadLettersWaiting => .ok (some 3)
  | _, .inl (.recordDurableSignal _ _) => .ok ⟨"20240101", some 1, {.artists}, false, false, false⟩
  | _, .inl op => Loader.smoothReply op
  | _, .inr _ => .error "OperationalError"

/-- The signal of the artists, with as many calls of the handling answered. -/
def handleArtists (calls : Nat) : List FlagEvent :=
  .deliver .durable ⟨.artists, "20240101", "2024-01-02", none⟩ ::
    List.replicate calls (.answer 0 waitingReply)

/-- A rejection before the decision vetoes the purge, is spent with the ack, and the next
    signal finds the flag clear. -/
theorem rejection_reaches_next_decision_spent :
    ∃ s, Run ResetsUndisturbed start s ∧ Faithful s.log ∧
      s.log = [.decided .artists false, .decided .artists true, .rejected .artists] := by
  have heval : (runWhile step ResetsUndisturbed start
      (.reject .artists :: handleArtists 18 ++ handleArtists 5)).map log = some [.decided .artists false, .decided .artists true, .rejected .artists] := by
    decide +kernel
  obtain ⟨s, hs, hlog⟩ := Option.map_eq_some_iff.1 heval
  have hrun := runOf_of_runWhile step _ hs
  exact ⟨s, hrun, rejection_reaches_next_decision hrun, hlog⟩

/-- A record is rejected while the handler, which vetoed for the dead-letter queue, waits
    for its ack: the flag is cleared with the rejection unread. -/
def rejectBeforeAck : List FlagEvent :=
  handleArtists 15 ++ [.reject .artists] ++ List.replicate 3 (.answer 0 waitingReply) ++
    handleArtists 5

theorem rejection_before_reset_is_lost :
    ∃ s, Run (fun _ _ => True) start s ∧ ¬Faithful s.log := by
  have heval : (runWhile step (fun _ _ => True) start rejectBeforeAck).map log =
      some [.decided .artists false, .rejected .artists, .decided .artists false] := by
    decide +kernel
  obtain ⟨s, hs, hlog⟩ := Option.map_eq_some_iff.1 heval
  refine ⟨s, runOf_of_runWhile step _ hs, fun hfaithful => ?_⟩
  have hread := hfaithful [] .artists false [.rejected .artists, .decided .artists false] hlog rfl
  cases hread

end Observer

end Tableinator.Durable
