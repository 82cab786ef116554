import Tableinator.Durable.Delivery

/-! # The loader in durable mode

The refresh protocol together with the deliveries in flight.  Deliveries arrive in
any order and any number, every call a handler makes may fail, and a commit or an
ack may take effect although its caller never hears of it.  A crash drops every
handler and worker at once; what the tables and the broker hold survives it. -/

namespace Tableinator.Durable

open Relational Effect Effect.Program

variable {R : Type}

structure InFlight where
  delivery : Delivery
  program : Handler Unit

structure Loader (R : Type) where
  cluster : Cluster R
  handlers : List InFlight
  /-- The deliveries whose ack reached the broker. -/
  acked : List Delivery

/-- How the environment answers the next call of a handler: `takesEffect` is whether a
    transaction commits or an ack arrives, `heard` whether its caller learns of it, and
    `reply` answers every other call. -/
structure Answer where
  takesEffect : Bool
  heard : Bool
  reply : ∀ {ρ : Type}, Call ρ → Except Failure ρ

/-- The tables after a call, with what its caller sees. -/
def Call.perform (now : Time) (d : Delivery) (answer : Answer) (db : RefreshDb) :
    {ρ : Type} → Call ρ → Except Failure ρ × RefreshDb
  | _, .recordDurableSignal version dataType =>
    if answer.takesEffect then
      match Durable.recordDurableSignal now version dataType dataTypes db with
      | .ok (signal, db') =>
        (if answer.heard then .ok signal else .error "OperationalError", db')
      | .error _ => (.error "RuntimeError", db)
    else (.error "OperationalError", db)
  | _, .recordPurgeVeto version =>
    if answer.takesEffect then
      (if answer.heard then .ok () else .error "OperationalError",
        Durable.recordPurgeVeto now version d.dataType db)
    else (.error "OperationalError", db)
  | _, op => (answer.reply op, db)

def Call.reaches (answer : Answer) : {ρ : Type} → Call ρ → Bool
  | _, .ack => answer.takesEffect
  | _, _ => false

inductive Event (R : Type) : Type 1 where
  | protocol (action : Action R)
  | deliver (d : Delivery)
  | answer (index : Nat) (answer : Answer)
  | cancel (index : Nat)
  | crash

namespace Loader

/-- One handler's call is answered. -/
def answerStep (l : Loader R) (index : Nat) (answer : Answer) : InFlight → Option (Loader R)
  | ⟨d, .call op k⟩ =>
    let (reply, db) := op.perform l.cluster.now d answer l.cluster.db
    some { l with
      cluster := { l.cluster with db := db }
      handlers := l.handlers.set index ⟨d, k reply⟩
      acked := if op.reaches answer then d :: l.acked else l.acked }
  | _ => none

def step (l : Loader R) : Event R → Option (Loader R)
  | .protocol action =>
    (l.cluster.step dataTypes action).map fun cluster => { l with cluster := cluster }
  | .deliver d => some { l with handlers := ⟨d, processDataMessage d⟩ :: l.handlers }
  | .answer index answer => (l.handlers[index]?).bind (l.answerStep index answer)
  | .cancel index => some { l with handlers := l.handlers.eraseIdx index }
  | .crash =>
    some { l with
      cluster := { l.cluster with workers := fun _ => none, lock := none }
      handlers := [] }

abbrev Run : Loader R → Loader R → Prop :=
  Relation.ReflTransGen fun l l' => ∃ event, l.step event = some l'

/-- A schedule of events, run in order. -/
def runEvents : Loader R → List (Event R) → Option (Loader R)
  | l, [] => some l
  | l, event :: events => (l.step event).bind fun l => l.runEvents events

theorem run_of_runEvents {events : List (Event R)} {l l' : Loader R}
    (h : l.runEvents events = some l') : Run l l' := by
  induction events generalizing l with
  | nil =>
    cases h
    exact .refl
  | cons event events ih =>
    obtain ⟨mid, hstep, hrest⟩ := Option.bind_eq_some_iff.1 h
    exact .head ⟨event, hstep⟩ (ih hrest)

/-- Tables with nothing but latch rows of the inline protocol, and nothing in flight. -/
structure Starts (l : Loader R) : Prop where
  cluster : l.cluster.Initial
  tables : Legacy l.cluster.db
  handlers : l.handlers = []
  acked : l.acked = []

/-! ## The invariant -/

/-- The signal of a delivery is durable. -/
def Durably (db : RefreshDb) (d : Delivery) : Prop :=
  ∃ v, orderedVersion d.version = .ok v ∧ Recorded db v d.dataType

structure Invariant (l : Loader R) : Prop where
  claims : l.cluster.Claims
  ordered : Ordered l.cluster.db
  settled : Settled dataTypes l.cluster.db
  handlers : ∀ h ∈ l.handlers, ∃ recorded, Guarded h.delivery h.program (fun _ _ => True) recorded ∧
    (recorded = true → Durably l.cluster.db h.delivery)
  acked : ∀ d ∈ l.acked, Durably l.cluster.db d

variable {l l' : Loader R} {now : Time}

theorem legacy_settled {db : RefreshDb} (h : Legacy db) : Settled dataTypes db := by
  intro v row hrow hsome
  rw [h.latch v row hrow] at hsome
  cases hsome

theorem Starts.invariant (h : l.Starts) : l.Invariant where
  claims := h.cluster.claims
  ordered := h.tables.ordered
  settled := legacy_settled h.tables
  handlers := by
    intro handler hmem
    rw [h.handlers] at hmem
    cases hmem
  acked := by
    intro d hmem
    rw [h.acked] at hmem
    cases hmem

theorem Durably.of_keeps {grant : Option Token} {db db' : RefreshDb} {d : Delivery}
    (h : Durably db d) (hkeeps : Keeps now grant db db') : Durably db' d := by
  obtain ⟨v, hv, hrecorded⟩ := h
  exact ⟨v, hv, hkeeps.recorded hrecorded⟩

/-- What a call can do to the tables, and that a signal it reports is durable. -/
theorem perform_spec (now : Time) {ρ : Type} (op : Call ρ) (d : Delivery) (answer : Answer) {db : RefreshDb}
    (hordered : Ordered db) (hsettled : Settled dataTypes db) (recorded : Bool)
    (hrecorded : recorded = true → Durably db d) :
    Writes now none db (op.perform now d answer db).2 ∧
      Settled dataTypes (op.perform now d answer db).2 ∧
      (Call.after d recorded op (op.perform now d answer db).1 = true →
        Durably (op.perform now d answer db).2 d) := by
  cases op with
  | recordDurableSignal version dataType =>
    simp only [Call.perform]
    split
    · split
      · next signal db' hsignal =>
        have hwrites : Writes now none db db' := recordDurableSignal_writes hsignal
        obtain ⟨hsettled', hnew⟩ := recordDurableSignal_settled hordered hsettled hsignal
        refine ⟨hwrites, hsettled', fun hafter => ?_⟩
        have hcases : recorded = true ∨ version = d.version ∧ dataType = d.dataType := by
          split at hafter
          · simpa [Call.after] using hafter
          · exact .inl hafter
        rcases hcases with hbefore | ⟨rfl, rfl⟩
        · exact (hrecorded hbefore).of_keeps hwrites.keeps
        · obtain ⟨v, _, hversion, _⟩ := recordDurableSignal_eq_ok.1 hsignal
          exact ⟨v, hversion, hnew v hversion⟩
      · exact ⟨.refl, hsettled, hrecorded⟩
    · exact ⟨.refl, hsettled, hrecorded⟩
  | recordPurgeVeto version =>
    simp only [Call.perform]
    split
    · have hveto : Write now none db (recordPurgeVeto now version d.dataType db) := .veto _ _
      exact ⟨.single hveto, recordPurgeVeto_settled hordered hsettled,
        fun h => (hrecorded h).of_keeps hveto.keeps⟩
    · exact ⟨.refl, hsettled, hrecorded⟩
  | _ => exact ⟨.refl, hsettled, hrecorded⟩

theorem claims_of_writes {c : Cluster R} {db : RefreshDb} (h : c.Claims)
    (hwrites : Writes c.now none c.db db) : Cluster.Claims { c with db := db } := by
  refine ⟨?_, h.spent⟩
  intro token worker hworker
  exact (h.claimed token worker hworker).of_keeps hwrites.keeps (by simp) (List.Subset.refl _)

theorem answerStep_invariant {index : Nat} {answer : Answer} {handler : InFlight}
    (h : l.Invariant) (hmem : l.handlers[index]? = some handler)
    (hstep : l.answerStep index answer handler = some l') : l'.Invariant := by
  obtain ⟨d, program⟩ := handler
  cases program with
  | done _ => cases hstep
  | raise _ => cases hstep
  | call op k =>
    obtain ⟨recorded, hguarded, hrecorded⟩ := h.handlers _ (List.mem_of_getElem? hmem)
    obtain ⟨hallowed, hrest⟩ := hguarded
    obtain ⟨hwrites, hsettled, hnext⟩ := perform_spec l.cluster.now op d answer h.ordered
      h.settled recorded hrecorded
    have hkeeps := hwrites.keeps
    simp only [answerStep, Option.some.injEq] at hstep
    subst hstep
    refine ⟨claims_of_writes h.claims hwrites, hwrites.ordered h.ordered, hsettled, ?_, ?_⟩
    · intro handler' hmem'
      rcases List.mem_or_eq_of_mem_set hmem' with hold | rfl
      · obtain ⟨recorded', hguarded', hrecorded'⟩ := h.handlers handler' hold
        exact ⟨recorded', hguarded', fun hr => (hrecorded' hr).of_keeps hkeeps⟩
      · exact ⟨_, hrest _, hnext⟩
    · intro d' hd'
      cases op with
      | ack =>
        -- The handler only gets here with its signal recorded.
        have hdurable := hrecorded hallowed
        have hcases : d' = d ∨ d' ∈ l.acked := by
          cases heffect : answer.takesEffect with
          | true => simpa [Call.reaches, heffect] using hd'
          | false => exact .inr (by simpa [Call.reaches, heffect] using hd')
        rcases hcases with rfl | hold
        · exact hdurable.of_keeps hkeeps
        · exact (h.acked d' hold).of_keeps hkeeps
      | _ => exact (h.acked d' hd').of_keeps hkeeps

theorem step_invariant {event : Event R} (h : l.Invariant) (hstep : l.step event = some l') :
    l'.Invariant := by
  cases event with
  | protocol action =>
    obtain ⟨cluster, hcluster, rfl⟩ := Option.map_eq_some_iff.1 hstep
    have hkept : ∀ d, Durably l.cluster.db d → Durably cluster.db d := by
      rintro d ⟨v, hv, hrecorded⟩
      exact ⟨v, hv, Cluster.step_recorded h.claims hcluster hrecorded⟩
    refine ⟨Cluster.step_claims h.claims hcluster, Cluster.step_ordered h.claims h.ordered hcluster,
      Cluster.step_settled h.claims h.ordered h.settled hcluster, ?_, ?_⟩
    · intro handler hmem
      obtain ⟨recorded, hguarded, hrecorded⟩ := h.handlers handler hmem
      exact ⟨recorded, hguarded, fun hr => hkept _ (hrecorded hr)⟩
    · intro d hd
      exact hkept d (h.acked d hd)
  | deliver d =>
    cases hstep
    refine ⟨h.claims, h.ordered, h.settled, ?_, h.acked⟩
    intro handler hmem
    rcases List.mem_cons.1 hmem with rfl | hold
    · exact ⟨false, processDataMessage_guarded d, by simp⟩
    · exact h.handlers handler hold
  | answer index answer =>
    obtain ⟨handler, hmem, hanswer⟩ := Option.bind_eq_some_iff.1 hstep
    exact answerStep_invariant h hmem hanswer
  | cancel index =>
    cases hstep
    exact ⟨h.claims, h.ordered, h.settled,
      fun handler hmem => h.handlers handler (List.mem_of_mem_eraseIdx hmem), h.acked⟩
  | crash =>
    cases hstep
    refine ⟨⟨?_, ?_⟩, h.ordered, h.settled, ?_, h.acked⟩
    · intro token worker hworker
      cases hworker
    · intro job hjob
      exact ⟨(h.claims.spent job hjob).1, rfl⟩
    · intro handler hmem
      cases hmem

theorem run_invariant (h : l.Invariant) (hrun : Run l l') : l'.Invariant := by
  induction hrun with
  | refl => exact h
  | tail _ hstep ih =>
    obtain ⟨event, hevent⟩ := hstep
    exact step_invariant ih hevent

/-- No refresh obligation is lost: once the broker has destroyed the deliveries of all
    data types of a version, the tables still carry what it is owed. -/
theorem acked_extraction_is_owed (hstart : l.Starts) (hrun : Run l l') (v : String)
    (hacked : ∀ dataType, ∃ d ∈ l'.acked, d.dataType = dataType ∧ orderedVersion d.version = .ok v) :
    (∃ row, l'.cluster.db.latch.lookup v = some row ∧ row.refreshedAt.isSome) ∨
      (∃ job, l'.cluster.db.job.lookup v = some job ∧
        (job.state = .pending ∨ job.state = .retry ∨ job.state = .leased)) ∨
      ∃ c u, l'.cluster.db.cursor = some c ∧ c.version = some u ∧ v < u := by
  have hinvariant := run_invariant hstart.invariant hrun
  have hall : ∀ dataType ∈ dataTypes, Recorded l'.cluster.db v dataType := by
    intro dataType _
    obtain ⟨d, hd, rfl, hv⟩ := hacked dataType
    obtain ⟨v', hv', hrecorded⟩ := hinvariant.acked d hd
    rw [hv] at hv'
    cases hv'
    exact hrecorded
  have hne : dataTypes.Nonempty := ⟨.artists, mem_dataTypes _⟩
  rcases hinvariant.settled.discharged hne hall with hstamped | ⟨job, hjob, hlive⟩ | ⟨u, hu, hlt⟩
  · unfold RefreshDb.refreshed at hstamped
    cases hrow : l'.cluster.db.latch.lookup v with
    | none => simp [hrow] at hstamped
    | some row => exact .inl ⟨row, rfl, by simpa [hrow] using hstamped⟩
  · refine .inr (.inl ⟨job, hjob, ?_⟩)
    cases hstate : job.state <;> simp_all [JobState.live]
  · obtain ⟨c, hc, hversion⟩ := Option.bind_eq_some_iff.1 hu
    exact .inr (.inr ⟨c, u, hc, hversion, hlt⟩)

/-- An environment in which every call succeeds. -/
def smoothReply : {ρ : Type} → Call ρ → Except Failure ρ
  | _, .shutdownRequested => .ok false
  | _, .batchProcessor => .ok false
  | _, .flushQueue => .ok true
  | _, .hadDlqNacks => .ok false
  | _, .deadLettersWaiting => .ok (some 0)
  | _, .latchDeclared => .ok true
  | _, .purgeWasVetoed _ => .ok false
  | _, .writeAdmission => .ok true
  | _, .recordPurgeVeto _ => .ok ()
  | _, .connectionPool => .ok true
  | _, .purgeStaleRows _ _ => .ok ()
  | _, .durableRefreshReady => .ok true
  | _, .recordDurableSignal _ _ => .error "OperationalError"
  | _, .cancellationDue => .ok false
  | _, .scheduleConsumerCancellation => .ok ()
  | _, .resetDlqNacks => .ok ()
  | _, .consecutivePurgeVetoes _ => .ok 0
  | _, .recordPurgeConsecutiveVetoes _ _ => .ok ()
  | _, .alertPurgeVetoes _ _ => .ok ()
  | _, .pauseDurableConsumers _ => .ok true
  | _, .ack => .ok ()
  | _, .nack _ => .ok ()

def smooth : Answer := ⟨true, true, smoothReply⟩

/-- A delivery taken as far as its ack. -/
def deliverToAck (dataType : DataType) : List (Event Nat) :=
  .deliver ⟨dataType, "20240101", "2024-01-02", none⟩ :: List.replicate 15 (.answer 0 smooth)

theorem acked_extraction_is_owed_smooth :
    ∃ l' : Loader Nat, Run ⟨.boot .empty 0, [], []⟩ l' ∧ l'.acked.length = 4 ∧
      ((∃ row, l'.cluster.db.latch.lookup "20240101" = some row ∧ row.refreshedAt.isSome) ∨
        (∃ job, l'.cluster.db.job.lookup "20240101" = some job ∧
          (job.state = .pending ∨ job.state = .retry ∨ job.state = .leased)) ∨
        ∃ c u, l'.cluster.db.cursor = some c ∧ c.version = some u ∧ "20240101" < u) := by
  have heval : (runEvents ⟨Cluster.boot .empty 0, [], []⟩ (deliverToAck .artists ++
      (deliverToAck .labels ++ (deliverToAck .masters ++ deliverToAck .releases)))).map Loader.acked =
      some [⟨.releases, "20240101", "2024-01-02", none⟩, ⟨.masters, "20240101", "2024-01-02", none⟩,
        ⟨.labels, "20240101", "2024-01-02", none⟩, ⟨.artists, "20240101", "2024-01-02", none⟩] := by
    decide +kernel
  obtain ⟨l', hl', hacked⟩ := Option.map_eq_some_iff.1 heval
  have hrun := run_of_runEvents hl'
  have hstart : Starts (⟨Cluster.boot .empty 0, [], []⟩ : Loader Nat) :=
    ⟨Cluster.boot_initial _ _, ⟨rfl, fun _ => rfl, by simp [Cluster.boot, RefreshDb.empty]⟩, rfl, rfl⟩
  refine ⟨l', hrun, by simp [hacked], acked_extraction_is_owed hstart hrun "20240101" ?_⟩
  have hversion : orderedVersion "20240101" = .ok "20240101" := by decide +kernel
  intro dataType
  refine ⟨⟨dataType, "20240101", "2024-01-02", none⟩, ?_, rfl, hversion⟩
  cases dataType <;> simp [hacked]

end Loader

end Tableinator.Durable
