import Tableinator.Durable.Inline
import Tableinator.Durable.Loader

/-! # A deployment in both modes

Any number of processes over one set of tables, each restarted in durable or in inline
mode.  Deliveries and redeliveries reach a handler of either mode at any time, every
call may fail or take effect unheard, and the workers of the durable protocol run
between any two of them.

The two protocols share the latch row of a version, and only one of them knows about
jobs: an inline pass stamps a latch whose job is still waiting, and that job then fails
at its late fence on every attempt. -/

namespace Tableinator.Durable

open Relational Effect Effect.Program

variable {R : Type}

/-! ## The environment of a handler -/

/-- `purge_was_vetoed`. -/
def purgeWasVetoed (version : String) (dataType : DataType) (db : RefreshDb) : Bool :=
  (db.latch.lookup version).any fun row => dataType ∈ row.purgeVetoed

-- A committed effect answers its caller only when the reply arrives.
def Answer.hear {ρ : Type} (answer : Answer) (reply : ρ) : Except Failure ρ :=
  if answer.heard then .ok reply else .error "OperationalError"

def InlineCall.perform (now : Time) (d : Delivery) (answer : Answer) (db : RefreshDb) :
    {ρ : Type} → InlineCall ρ → Except Failure ρ × RefreshDb
  | _, .recordExtractionSignal version =>
    if answer.takesEffect then
      let (latch, db') := Durable.recordExtractionSignal now version d.dataType db
      (answer.hear latch, db')
    else (.error "OperationalError", db)
  | _, .refreshDerivedRelations version =>
    if answer.takesEffect then (answer.hear (), markExtractionRefreshed now version db)
    else (.error "OperationalError", db)

/-- The tables after a call, with what its caller sees.  The recorded veto is read as it
    stands, or not at all. -/
def ServiceCall.perform (now : Time) (d : Delivery) (answer : Answer) (db : RefreshDb) :
    {ρ : Type} → ServiceCall ρ → Except Failure ρ × RefreshDb
  | _, .inl (.purgeWasVetoed version) =>
    if answer.takesEffect then (answer.hear (purgeWasVetoed version d.dataType db), db)
    else (.error "OperationalError", db)
  | _, .inl op => op.perform now d answer db
  | _, .inr op => op.perform now d answer db

/-- The replies that make `purge_veto_reason` return a reason. -/
def ServiceCall.vetoes : {ρ : Type} → ServiceCall ρ → Except Failure ρ → Bool
  | _, .inl .hadDlqNacks, .ok nacked => nacked
  | _, .inl .deadLettersWaiting, .ok waiting => waiting != some 0
  | _, .inl (.purgeWasVetoed _), .ok vetoed => vetoed
  | _, .inl (.purgeWasVetoed _), .error _ => true
  | _, _, _ => false

def ServiceCall.purges : {ρ : Type} → ServiceCall ρ → Bool
  | _, .inl (.purgeStaleRows _ _) => true
  | _, _ => false

def ServiceCall.acks (answer : Answer) : {ρ : Type} → ServiceCall ρ → Bool
  | _, .inl .ack => answer.takesEffect
  | _, _ => false

/-- The version whose latch an inline pass stamps with this answer. -/
def ServiceCall.stamps (answer : Answer) : {ρ : Type} → ServiceCall ρ → Option String
  | _, .inr (.refreshDerivedRelations version) => if answer.takesEffect then some version else none
  | _, _ => none

/-! ## Steps -/

/-- The handling of one delivery; `vetoed` once a reply gave a reason to veto its purge. -/
structure Handling where
  id : Nat
  delivery : Delivery
  vetoed : Bool
  program : Service Unit

/-- The version whose latch an inline pass would stamp with this answer. -/
def Handling.stamps (h : Handling) (answer : Answer) : Option String :=
  match h.program with
  | .call op _ => ServiceCall.stamps answer op
  | _ => none

structure Deployment (R : Type) where
  cluster : Cluster R
  handlings : List Handling
  /-- How many deliveries there were; the next handling gets this number. -/
  delivered : Nat
  /-- The handlings that executed `purge_stale_rows`. -/
  purges : List (Nat × Delivery)
  /-- The deliveries whose ack reached the broker, and whether their handling was vetoed. -/
  acks : List (Delivery × Bool)

/-- An answer to a handler; `draft` is what an inline pass publishes. -/
structure ServiceAnswer (R : Type) extends Answer where
  draft : R

inductive ServiceEvent (R : Type) : Type 1 where
  | protocol (action : Action R)
  | deliver (mode : RefreshMode) (d : Delivery)
  | answer (index : Nat) (answer : ServiceAnswer R)
  | cancel (index : Nat)
  | restart

namespace Deployment

def boot (db : RefreshDb) (relations : R) : Deployment R where
  cluster := .boot db relations
  handlings := []
  delivered := 0
  purges := []
  acks := []

def answerStep (s : Deployment R) (index : Nat) (answer : ServiceAnswer R) :
    Handling → Option (Deployment R)
  | ⟨id, d, vetoed, .call op k⟩ =>
    let (reply, db) := ServiceCall.perform s.cluster.now d answer.toAnswer s.cluster.db op
    let relations :=
      if (ServiceCall.stamps answer.toAnswer op).isSome then answer.draft else s.cluster.relations
    some { s with
      cluster := { s.cluster with db := db, relations := relations }
      handlings := s.handlings.set index ⟨id, d, vetoed || ServiceCall.vetoes op reply, k reply⟩
      purges := if ServiceCall.purges op then (id, d) :: s.purges else s.purges
      acks := if ServiceCall.acks answer.toAnswer op then (d, vetoed) :: s.acks else s.acks }
  | _ => none

def step (s : Deployment R) : ServiceEvent R → Option (Deployment R)
  | .protocol action =>
    (s.cluster.step dataTypes action).map fun cluster => { s with cluster := cluster }
  | .deliver mode d =>
    some { s with
      handlings := ⟨s.delivered, d, false, mode.process d⟩ :: s.handlings
      delivered := s.delivered + 1 }
  | .answer index answer => (s.handlings[index]?).bind (s.answerStep index answer)
  | .cancel index => some { s with handlings := s.handlings.eraseIdx index }
  | .restart =>
    some { s with
      cluster := { s.cluster with workers := fun _ => none, lock := none }
      handlings := [] }

/-- The runs whose events all meet a condition on the state before them. -/
abbrev Run (ok : Deployment R → ServiceEvent R → Prop) : Deployment R → Deployment R → Prop :=
  Relation.ReflTransGen fun s s' => ∃ event, ok s event ∧ s.step event = some s'

def runEvents : Deployment R → List (ServiceEvent R) → Option (Deployment R)
  | s, [] => some s
  | s, event :: events => (s.step event).bind fun s => s.runEvents events

theorem run_of_runEvents {ok : Deployment R → ServiceEvent R → Prop}
    {events : List (ServiceEvent R)} {s s' : Deployment R}
    (hok : ∀ event ∈ events, ∀ s, ok s event) (h : s.runEvents events = some s') :
    Run ok s s' := by
  induction events generalizing s with
  | nil =>
    cases h
    exact .refl
  | cons event events ih =>
    obtain ⟨mid, hstep, hrest⟩ := Option.bind_eq_some_iff.1 h
    have hfirst := hok event List.mem_cons_self s
    exact .head ⟨event, hfirst, hstep⟩ (ih (fun e he => hok e (List.mem_cons_of_mem _ he)) hrest)

/-- The events of a list, as long as each meets the condition. -/
def runWhile (ok : Deployment R → ServiceEvent R → Prop) [∀ s event, Decidable (ok s event)] :
    Deployment R → List (ServiceEvent R) → Option (Deployment R)
  | s, [] => some s
  | s, event :: events =>
    if ok s event then (s.step event).bind fun s => runWhile ok s events else none

theorem run_of_runWhile {ok : Deployment R → ServiceEvent R → Prop}
    [∀ s event, Decidable (ok s event)] {events : List (ServiceEvent R)} {s s' : Deployment R}
    (h : runWhile ok s events = some s') : Run ok s s' := by
  induction events generalizing s with
  | nil =>
    cases h
    exact .refl
  | cons event events ih =>
    rw [runWhile] at h
    split at h
    · next hok =>
      obtain ⟨mid, hstep, hrest⟩ := Option.bind_eq_some_iff.1 h
      exact .head ⟨event, hok, hstep⟩ (ih hrest)
    · cases h

theorem runEvents_append (s : Deployment R) (first second : List (ServiceEvent R)) :
    s.runEvents (first ++ second) = (s.runEvents first).bind fun s => s.runEvents second := by
  induction first generalizing s with
  | nil => rfl
  | cons event events ih =>
    rw [List.cons_append, runEvents, runEvents, Option.bind_assoc]
    exact congrArg (Option.bind (s.step event)) (funext ih)

/-- An inline pass commits only while its version has no live job. -/
def StampsIdle (s : Deployment R) : ServiceEvent R → Prop
  | .answer index answer => ∀ h v, s.handlings[index]? = some h →
      h.stamps answer.toAnswer = some v → ¬s.cluster.db.LiveJob v
  | _ => True

/-- The keys the inline protocol writes: it strips the version and the start time. -/
def Trimmed (db : RefreshDb) : Prop :=
  ∀ v row, db.latch.lookup v = some row → strip v = v ∨ row.signals = ∅

/-- Tables as the inline protocol leaves them, and nothing in flight. -/
structure Starts (s : Deployment R) : Prop where
  cluster : s.cluster.Initial
  tables : Legacy s.cluster.db
  trimmed : Trimmed s.cluster.db
  handlings : s.handlings = []
  purges : s.purges = []
  acks : s.acks = []

end Deployment

end Tableinator.Durable
