import Tableinator.Batch.Isolation
import Tableinator.Store.Reload

/-! # Acknowledged records

The broker forgets a record once it is acknowledged, so by then its row has to be stored.
The environment decides what each transaction meets: when it runs, what other loaders
commit before it, how its failure is classified, whether it is broken off, and whether the
answer to a commit is lost.  Whatever it decides, a record is acknowledged for a transaction
that held it and committed, and the purge at the end of the extraction keeps its row. -/

namespace Tableinator.Batch

open Effect Effect.Program

/-! ## The journal of a loader -/

/-- What the environment makes of one transaction. -/
structure Turn where
  beside : List (Operation × Bool)
  now : Time
  /-- What the classifier makes of a failure of its own. -/
  kind : FailureKind
  fault : Option Fault

/-- An operation that was put to the database: whether this write put it, and the failure it
    heard of. -/
structure Entry where
  own : Bool
  op : Operation
  commits : Bool
  failure : Option WriteFailure

def Entry.step (entry : Entry) : Operation × Bool := (entry.op, entry.commits)

def Entry.beside (step : Operation × Bool) : Entry := ⟨false, step.1, step.2, none⟩

structure Journal where
  entries : List Entry
  made : Nat

def Journal.steps (s : Journal) : List (Operation × Bool) := s.entries.map Entry.step

def failureOf {α : Type} : Except WriteFailure α → Option WriteFailure
  | .ok _ => none
  | .error e => some e

/-- What the loader hears of a transaction, and whether it stays committed. -/
def conclude {α : Type} (turn : Turn) : Except WriteError α → Except WriteFailure α × Bool
  | .ok a =>
    -- the transaction may commit and its answer get lost
    match turn.fault with
    | none => (.ok a, true)
    | some f => (.error f.error, f.committed)
  | .error _ => (.error (turn.fault.elim (.error turn.kind) Fault.error), false)

section

variable (rt : Runtime) (cap : Rat) (start : Store) (turns : Nat → Turn)

def transact {α : Type} (op : Time → Operation) (program : Time → Transaction α) (s : Journal) :
    Except WriteFailure α × Journal :=
  let turn := turns s.made
  -- what commits beside it does so before its own transaction
  let found := s.entries ++ turn.beside.map Entry.beside
  let ran := (program turn.now).serial engine.alone (resume rt cap start (found.map Entry.step))
  let concluded := conclude turn (ran.map Prod.fst)
  (concluded.1, ⟨found ++ [⟨true, op turn.now, concluded.2, failureOf concluded.1⟩], s.made + 1⟩)

def transactBatch (key : DataType) (messages : List BatchRecord) (s : Journal) :
    Except WriteFailure BatchWriteResult × Journal :=
  transact rt cap start turns (fun now => .processBatch now key messages)
    (fun now => processBatch rt now key messages) s

def transactRecord (t : DataType) (dataId : String) (data : Document) (s : Journal) :
    Except WriteFailure Outcome × Journal :=
  transact rt cap start turns (fun now => .persistRecord now t dataId data)
    (fun now => persistRecord rt now t dataId data) s

def respond : {ρ : Type} → SinkCall ρ → Journal → Except WriteFailure ρ × Journal
  | _, .processBatch key messages, s => transactBatch rt cap start turns key messages s
  | _, .writeFailed _ _ _, s => (.ok (), s)
  | _, .writeResult _ _, s => (.ok (), s)

/-! ## The books of an extraction -/

/-- What the loader works off: a batch the engine flushes, in whatever composition, or one
    record where batches are off. -/
inductive Work where
  | flush (key : DataType) (payloads : List BatchRecord)
  | record (t : DataType) (dataId : String) (data : Document)

structure Books where
  journal : Journal
  acked : List (DataType × BatchRecord)
  rejected : List (DataType × BatchRecord)

def settledAs (settlement : Settlement) (key : DataType) (payloads : List BatchRecord)
    (results : List BatchItemResult) : List (DataType × BatchRecord) :=
  ((payloads.zip results).filter fun pair => pair.2.settlement = settlement).map fun pair =>
    (key, pair.1)

def Work.run (books : Books) : Work → Books
  | .flush key payloads =>
    let settled := (write key payloads).handled (respond rt cap start turns) books.journal
    match settled.1 with
    | .ok results => ⟨settled.2, books.acked ++ settledAs .ack key payloads results,
        books.rejected ++ settledAs .reject key payloads results⟩
    -- nothing is settled: the engine keeps the batch and retries, or returns it to the broker
    | .error _ => { books with journal := settled.2 }
  | .record t dataId data =>
    let settled := transactRecord rt cap start turns t dataId data books.journal
    match settled.1 with
    | .ok _ => ⟨settled.2, books.acked ++ [(t, batchRecord dataId data)], books.rejected⟩
    | .error (.error .deterministic) =>
      ⟨settled.2, books.acked, books.rejected ++ [(t, batchRecord dataId data)]⟩
    -- `run_delivery` requeues it
    | .error _ => { books with journal := settled.2 }

end

/-! ## Accounts -/

/-- The transaction is handed the record. -/
def Carries (t : DataType) (message : BatchRecord) : Operation → Prop
  | .processBatch _ t' messages => t' = t ∧ message ∈ messages
  | .persistRecord _ t' dataId data => t' = t ∧ batchRecord dataId data = message
  | .purgeStaleRows _ _ _ => False

/-- And it is handed nothing else. -/
def CarriesOnly (t : DataType) (message : BatchRecord) : Operation → Prop
  | .processBatch _ t' messages => t' = t ∧ messages = [message]
  | .persistRecord _ t' dataId data => t' = t ∧ batchRecord dataId data = message
  | .purgeStaleRows _ _ _ => False

section

variable (rt : Runtime) (cap : Rat) (start : Store)

/-- Among these entries an own one committed with the record, and the loader heard so. -/
def Secured (t : DataType) (message : BatchRecord) (before more : List Entry) : Prop :=
  ∃ first op later, more = first ++ ⟨true, op, true, none⟩ :: later ∧ Carries t message op ∧
    (op.run rt cap (resume rt cap start ((before ++ first).map Entry.step))).isOk = true

/-- Among these entries the record failed by itself, for good. -/
def FailedAlone (key : DataType) (message : BatchRecord) (more : List Entry) : Prop :=
  ∃ entry ∈ more, entry.own = true ∧ entry.failure = some (.error .deterministic) ∧
    CarriesOnly key message entry.op

def Accounted (key : DataType) (before more : List Entry) (message : BatchRecord)
    (result : BatchItemResult) : Prop :=
  match result.settlement with
  | .ack => Secured rt cap start key message before more
  | .reject => FailedAlone key message more
  | .requeue => False

/-- Every settlement has its cause in what was put to the database since. -/
def Account (key : DataType) (payloads : List BatchRecord) (before : List Entry) (bound : Nat)
    (settled : Except WriteFailure (List BatchItemResult) × Journal) : Prop :=
  ∃ more, settled.2.entries = before ++ more ∧ settled.2.made ≤ bound ∧
    ∀ results, settled.1 = .ok results →
      List.Forall₂ (Accounted rt cap start key before more) payloads results

end

section

variable {rt : Runtime} {cap : Rat} {start : Store} {turns : Nat → Turn} {key t : DataType}
variable {message : BatchRecord} {payloads first rest half : List BatchRecord}
variable {result : BatchItemResult}
variable {before tried more later : List Entry} {s : Journal} {bound : Nat}

theorem Secured.within (h : Secured rt cap start t message (before ++ tried) more) :
    Secured rt cap start t message before (tried ++ more ++ later) := by
  obtain ⟨first, op, after, rfl, hcarries, hrun⟩ := h
  refine ⟨tried ++ first, op, after ++ later, by simp, hcarries, ?_⟩
  rwa [← List.append_assoc]

theorem FailedAlone.within (h : FailedAlone key message more) :
    FailedAlone key message (tried ++ more ++ later) := by
  obtain ⟨entry, hentry, hfailed⟩ := h
  exact ⟨entry, by simp [hentry], hfailed⟩

theorem Accounted.within (h : Accounted rt cap start key (before ++ tried) more message result) :
    Accounted rt cap start key before (tried ++ more ++ later) message result := by
  unfold Accounted at h ⊢
  cases hsettlement : result.settlement with
  | ack =>
    rw [hsettlement] at h
    exact Secured.within h
  | reject =>
    rw [hsettlement] at h
    exact FailedAlone.within h
  | requeue =>
    rw [hsettlement] at h
    exact h

theorem Accounted.cause (h : Accounted rt cap start key before more message result) :
    (result.settlement = .ack ∧ Secured rt cap start key message before more) ∨
      (result.settlement = .reject ∧ FailedAlone key message more) := by
  unfold Accounted at h
  cases hsettlement : result.settlement with
  | ack => exact .inl ⟨rfl, by rwa [hsettlement] at h⟩
  | reject => exact .inr ⟨rfl, by rwa [hsettlement] at h⟩
  | requeue =>
    rw [hsettlement] at h
    exact h.elim

/-- An account may begin earlier. -/
theorem Account.since {settled : Except WriteFailure (List BatchItemResult) × Journal}
    (h : Account rt cap start key payloads (before ++ tried) bound settled) :
    Account rt cap start key payloads before bound settled := by
  obtain ⟨more, hentries, hmade, hresults⟩ := h
  refine ⟨tried ++ more, by rw [hentries, List.append_assoc], hmade, fun results hok => ?_⟩
  refine (hresults results hok).imp fun message result haccounted => ?_
  have hwithin := @Accounted.within _ _ _ _ _ _ _ _ _ [] haccounted
  rwa [List.append_nil] at hwithin

theorem Account.mono {bound' : Nat} {settled : Except WriteFailure (List BatchItemResult) × Journal}
    (h : Account rt cap start key payloads before bound settled) (hle : bound ≤ bound') :
    Account rt cap start key payloads before bound' settled := by
  obtain ⟨more, hentries, hmade, hresults⟩ := h
  exact ⟨more, hentries, hmade.trans hle, hresults⟩

theorem Account.raise {e : WriteFailure} (hentries : s.entries = before ++ more)
    (hmade : s.made ≤ bound) :
    Account rt cap start key payloads before bound (.error e, s) :=
  ⟨more, hentries, hmade, fun _ hok => by cases hok⟩

/-- One part, and then, unless it raises, the other. -/
theorem Account.append {left right : Sink (List BatchItemResult)} {middle : Nat}
    (hle : middle ≤ bound)
    (hleft : Account rt cap start key first s.entries middle
      (left.handled (respond rt cap start turns) s))
    (hright : ∀ s', s'.made ≤ middle → Account rt cap start key rest s'.entries bound
      (right.handled (respond rt cap start turns) s')) :
    Account rt cap start key (first ++ rest) s.entries bound ((do
      let firstResults ← left
      let restResults ← right
      pure (firstResults ++ restResults)).handled (respond rt cap start turns) s) := by
  obtain ⟨more, hentries, hmade, hresults⟩ := hleft
  rw [handled_bind]
  cases hfirst : left.handled (respond rt cap start turns) s with
  | mk reply s' =>
    rw [hfirst] at hentries hmade hresults
    cases reply with
    | error e => exact Account.raise hentries (hmade.trans hle)
    | ok results =>
      obtain ⟨more', hentries', hmade', hresults'⟩ := hright s' hmade
      simp only [handled_bind]
      cases hrest : right.handled (respond rt cap start turns) s' with
      | mk reply' s'' =>
        rw [hrest] at hentries' hmade' hresults'
        have hall : s''.entries = s.entries ++ (more ++ more') := by
          rw [hentries', hentries, List.append_assoc]
        cases reply' with
        | error e => exact Account.raise hall hmade'
        | ok results' =>
          refine ⟨more ++ more', hall, hmade', fun both hboth => ?_⟩
          obtain rfl : results ++ results' = both := Except.ok.inj hboth
          refine List.rel_append ?_ ?_
          · refine (hresults results rfl).imp fun message result haccounted => ?_
            exact @Accounted.within _ _ _ _ _ _ _ [] _ more' (by rwa [List.append_nil])
          · refine (hresults' results' rfl).imp fun message result haccounted => ?_
            rw [hentries] at haccounted
            have hwithin := @Accounted.within _ _ _ _ _ _ _ _ _ [] haccounted
            rwa [List.append_nil] at hwithin

/-! ## One transaction -/

theorem transact_spec {α : Type} {op : Time → Operation} {program : Time → Transaction α}
    (hrun : ∀ now st, (op now).run rt cap st = ((program now).serial engine.alone st).map Prod.snd)
    (s : Journal) : ∃ first entry, (transact rt cap start turns op program s).2 =
        ⟨s.entries ++ (first ++ [entry]), s.made + 1⟩ ∧ entry.own = true ∧
      (∃ now, entry.op = op now) ∧ entry.failure = failureOf (transact rt cap start turns op program s).1 ∧
      ∀ a, (transact rt cap start turns op program s).1 = .ok a → entry.commits = true ∧
        (entry.op.run rt cap
          (resume rt cap start ((s.entries ++ first).map Entry.step))).isOk = true := by
  unfold transact
  refine ⟨(turns s.made).beside.map Entry.beside, _, by rw [← List.append_assoc], rfl, ⟨_, rfl⟩,
    rfl, fun a ha => ?_⟩
  rw [hrun]
  simp only at ha ⊢
  cases hserial : (program (turns s.made).now).serial engine.alone (resume rt cap start
      ((s.entries ++ (turns s.made).beside.map Entry.beside).map Entry.step)) with
  | error e =>
    rw [hserial] at ha
    cases ha
  | ok left =>
    rw [hserial] at ha
    simp only [Except.map, conclude] at ha ⊢
    cases hfault : (turns s.made).fault with
    | some f =>
      rw [hfault] at ha
      cases ha
    | none => exact ⟨rfl, rfl⟩

/-- An answer secures what the transaction carried. -/
theorem transact_secures {α : Type} {op : Time → Operation} {program : Time → Transaction α} {a : α}
    (hrun : ∀ now st, (op now).run rt cap st = ((program now).serial engine.alone st).map Prod.snd)
    (hok : (transact rt cap start turns op program s).1 = .ok a) : ∃ more,
      (transact rt cap start turns op program s).2 = ⟨s.entries ++ more, s.made + 1⟩ ∧
      ∀ t message, (∀ now, Carries t message (op now)) →
        Secured rt cap start t message s.entries more := by
  obtain ⟨first, ⟨own, op', commits, failure⟩, hjournal, hown, ⟨now, hop⟩, hfailure, hcommits⟩ :=
    @transact_spec rt cap start turns α op program hrun s
  obtain ⟨rfl, hisOk⟩ := hcommits a hok
  rw [hok] at hfailure
  obtain rfl : failure = none := hfailure
  obtain rfl : op' = op now := hop
  obtain rfl : own = true := hown
  exact ⟨_, hjournal, fun t message hcarries => ⟨first, _, [], rfl, hcarries now, hisOk⟩⟩

/-- A failure is in the journal. -/
theorem transact_failed {α : Type} {op : Time → Operation} {program : Time → Transaction α}
    {e : WriteFailure}
    (hrun : ∀ now st, (op now).run rt cap st = ((program now).serial engine.alone st).map Prod.snd)
    (hfailed : (transact rt cap start turns op program s).1 = .error e) : ∃ more,
      (transact rt cap start turns op program s).2 = ⟨s.entries ++ more, s.made + 1⟩ ∧
      ∃ entry ∈ more, entry.own = true ∧ entry.failure = some e ∧ ∃ now, entry.op = op now := by
  obtain ⟨first, entry, hjournal, hown, hop, hfailure, -⟩ :=
    @transact_spec rt cap start turns α op program hrun s
  rw [hfailed] at hfailure
  exact ⟨_, hjournal, entry, by simp, hown, hfailure, hop⟩

/-- A batch that was answered secures each of its records. -/
theorem transactBatch_ok {result : BatchWriteResult}
    (hok : (transactBatch rt cap start turns key half s).1 = .ok result) :
    Account rt cap start key half s.entries (s.made + 1)
      (.ok (acks half result), (transactBatch rt cap start turns key half s).2) := by
  obtain ⟨more, hjournal, hsecured⟩ := @transact_secures rt cap start turns s _
    (fun now => .processBatch now key half) (fun now => processBatch rt now key half) result
    (fun _ _ => rfl) hok
  change (transactBatch rt cap start turns key half s).2 = _ at hjournal
  rw [hjournal]
  refine ⟨more, rfl, le_rfl, fun results hresults => ?_⟩
  obtain rfl : acks half result = results := Except.ok.inj hresults
  rw [acks, List.forall₂_map_right_iff, List.forall₂_same]
  exact fun message hmessage => hsecured key message fun _ => ⟨rfl, hmessage⟩

theorem transactRecord_ok {dataId : String} {data : Document} {outcome : Outcome}
    (hok : (transactRecord rt cap start turns t dataId data s).1 = .ok outcome) : ∃ more,
      (transactRecord rt cap start turns t dataId data s).2 = ⟨s.entries ++ more, s.made + 1⟩ ∧
      Secured rt cap start t (batchRecord dataId data) s.entries more := by
  obtain ⟨more, hjournal, hsecured⟩ := @transact_secures rt cap start turns s _
    (fun now => .persistRecord now t dataId data) (fun now => persistRecord rt now t dataId data)
    outcome (fun _ _ => rfl) hok
  exact ⟨more, hjournal, hsecured t _ fun _ => ⟨rfl, rfl⟩⟩

theorem transactBatch_failed {e : WriteFailure}
    (hfailed : (transactBatch rt cap start turns key half s).1 = .error e) : ∃ more,
      (transactBatch rt cap start turns key half s).2 = ⟨s.entries ++ more, s.made + 1⟩ ∧
      ∃ entry ∈ more, entry.own = true ∧ entry.failure = some e ∧
        ∃ now, entry.op = .processBatch now key half :=
  transact_failed (fun _ _ => rfl) hfailed

theorem transactRecord_failed {dataId : String} {data : Document} {e : WriteFailure}
    (hfailed : (transactRecord rt cap start turns t dataId data s).1 = .error e) : ∃ more,
      (transactRecord rt cap start turns t dataId data s).2 = ⟨s.entries ++ more, s.made + 1⟩ ∧
      ∃ entry ∈ more, entry.own = true ∧ entry.failure = some e ∧
        ∃ now, entry.op = .persistRecord now t dataId data :=
  transact_failed (fun _ _ => rfl) hfailed

/-! ## The sink -/

/-- What goes into an isolation: the records failed together, for good. -/
def FailedTogether (key : DataType) (payloads : List BatchRecord) (more : List Entry) : Prop :=
  ∃ entry ∈ more, entry.own = true ∧ entry.failure = some (.error .deterministic) ∧
    ∃ now, entry.op = .processBatch now key payloads

theorem account_writeHalf {isolated : WriteFailure → Sink (List BatchItemResult)}
    (hsome : 1 ≤ half.length)
    (hisolated : ∀ s' tried, s'.entries = s.entries ++ tried → FailedTogether key half tried →
      Account rt cap start key half s.entries (s'.made + (2 * half.length - 2))
        ((isolated (.error .deterministic)).handled (respond rt cap start turns) s')) :
    Account rt cap start key half s.entries (s.made + (2 * half.length - 1))
      ((writeHalf key half isolated).handled (respond rt cap start turns) s) := by
  rw [writeHalf, handled_follow, handled_await, respond]
  cases hreply : (transactBatch rt cap start turns key half s).1 with
  | ok result => exact (transactBatch_ok hreply).mono (by omega)
  | error e =>
    obtain ⟨more, hjournal, hfailed⟩ := transactBatch_failed hreply
    rw [hjournal]
    cases e with
    | cancelled => exact Account.raise rfl (show s.made + 1 ≤ _ by omega)
    | error kind =>
      cases kind with
      | transient => exact Account.raise rfl (show s.made + 1 ≤ _ by omega)
      | deterministic =>
        -- the attempt that failed is what the isolation has to show for its first rejection
        exact (hisolated ⟨s.entries ++ more, s.made + 1⟩ more rfl hfailed).mono
          (show s.made + 1 + _ ≤ _ by omega)

/-- `_isolate`, by induction on the length of the part. -/
theorem account_isolate (hsome : 1 ≤ payloads.length) (error : WriteFailure)
    (hentries : s.entries = before ++ tried) (hfailed : FailedTogether key payloads tried) :
    Account rt cap start key payloads before (s.made + (2 * payloads.length - 2))
      ((isolate key payloads error).handled (respond rt cap start turns) s) := by
  induction hlength : payloads.length using Nat.strong_induction_on
    generalizing payloads error s before tried with
  | _ length ih =>
    subst hlength
    rw [isolate]
    split
    · next hshort =>
      -- A part of one record: the failure that led here was its own.
      obtain ⟨message, rfl⟩ : ∃ message, payloads = [message] := List.length_eq_one_iff.1 (by omega)
      refine ⟨tried, hentries, Nat.le_add_right _ _, fun results hok => ?_⟩
      obtain rfl : [⟨.reject, "poison"⟩] = results := Except.ok.inj hok
      obtain ⟨entry, hentry, hown, hfailure, now, hop⟩ := hfailed
      have halone : CarriesOnly key message entry.op := by
        rw [hop]
        exact ⟨rfl, rfl⟩
      exact List.Forall₂.cons ⟨entry, hentry, hown, hfailure, halone⟩ List.Forall₂.nil
    · next hlong =>
      have hhalf : ∀ half : List BatchRecord, 1 ≤ half.length → half.length < payloads.length → ∀ s,
          Account rt cap start key half s.entries (s.made + (2 * half.length - 1))
            ((writeHalf key half fun halfError => isolate key half halfError).handled
              (respond rt cap start turns) s) := by
        intro half hsome hshorter s
        refine account_writeHalf hsome fun s' tried hentries hfailed => ?_
        exact ih half.length hshorter hsome _ hentries hfailed rfl
      have hparts := List.take_append_drop (payloads.length / 2) payloads
      have hfirst : (payloads.take (payloads.length / 2)).length = payloads.length / 2 := by
        rw [List.length_take]
        omega
      have hrest : (payloads.drop (payloads.length / 2)).length =
          payloads.length - payloads.length / 2 := List.length_drop
      -- `2 (n / 2) - 1` transactions for the one half and `2 (n - n / 2) - 1` for the other
      have happend := @Account.append rt cap start turns key (payloads.take (payloads.length / 2))
        (payloads.drop (payloads.length / 2)) s (s.made + (2 * payloads.length - 2))
        _ _ (s.made + (2 * (payloads.length / 2) - 1)) (by omega)
        (hfirst ▸ hhalf _ (by omega) (by omega) s)
        (fun s' hmade => (hhalf _ (by omega) (by omega) s').mono (by omega))
      rw [hparts, hentries] at happend
      exact happend.since

theorem account_write (payloads : List BatchRecord) (s : Journal) :
    Account rt cap start key payloads s.entries (s.made + max 1 (2 * payloads.length - 1))
      ((write key payloads).handled (respond rt cap start turns) s) := by
  rw [write, handled_follow, handled_await, respond]
  cases hreply : (transactBatch rt cap start turns key payloads s).1 with
  | ok result => exact (transactBatch_ok hreply).mono (by omega)
  | error e =>
    obtain ⟨more, hjournal, hfailed⟩ := transactBatch_failed hreply
    rw [hjournal]
    cases e with
    | cancelled => exact Account.raise rfl (show s.made + 1 ≤ _ by omega)
    | error kind =>
      simp only
      split
      · next hisolates =>
        obtain ⟨hmany, rfl⟩ := hisolates
        have hisolated := @account_isolate rt cap start turns key payloads s.entries more
          ⟨s.entries ++ more, s.made + 1⟩ (by omega) (.error .deterministic) rfl hfailed
        exact hisolated.mono (show s.made + 1 + _ ≤ _ by omega)
      · exact Account.raise rfl (show s.made + 1 ≤ _ by omega)

/-- Whatever it meets, a write of `n` records makes at most `2n - 1` transactions and, unless it
    raises, settles each of the records: one it acks was in a transaction that committed and
    answered since, one it rejects failed for good in a transaction of its own. -/
theorem write_settles_each (rt : Runtime) (cap : Rat) (start : Store) (turns : Nat → Turn)
    (key : DataType) (payloads : List BatchRecord) (s : Journal) :
    ∃ more, ((write key payloads).handled (respond rt cap start turns) s).2.entries =
        s.entries ++ more ∧
      ((write key payloads).handled (respond rt cap start turns) s).2.made ≤
        s.made + max 1 (2 * payloads.length - 1) ∧
      ∀ results, ((write key payloads).handled (respond rt cap start turns) s).1 = .ok results →
        results.length = payloads.length ∧ ∀ pair ∈ payloads.zip results,
          (pair.2.settlement = .ack ∧ Secured rt cap start key pair.1 s.entries more) ∨
          (pair.2.settlement = .reject ∧ FailedAlone key pair.1 more) := by
  obtain ⟨more, hentries, hmade, hresults⟩ := @account_write rt cap start turns key payloads s
  refine ⟨more, hentries, hmade, fun results hok => ?_⟩
  have haccounts := hresults results hok
  refine ⟨haccounts.length_eq.symm, fun pair hpair => ?_⟩
  exact Accounted.cause (List.forall₂_zip haccounts hpair)

/-! ## Sound books -/

/-- Every settlement on the books has its cause in the journal. -/
structure Books.Sound (rt : Runtime) (cap : Rat) (start : Store) (books : Books) : Prop where
  acked : ∀ t message, (t, message) ∈ books.acked →
    Secured rt cap start t message [] books.journal.entries
  rejected : ∀ t message, (t, message) ∈ books.rejected →
    FailedAlone t message books.journal.entries

theorem mem_settledAs {settlement : Settlement} {results : List BatchItemResult}
    (h : (t, message) ∈ settledAs settlement key payloads results) :
    t = key ∧ ∃ result, (message, result) ∈ payloads.zip results ∧ result.settlement = settlement := by
  obtain ⟨pair, hpair, heq⟩ := List.mem_map.1 h
  obtain ⟨hzip, hsettlement⟩ := List.mem_filter.1 hpair
  obtain ⟨rfl, rfl⟩ := Prod.mk.inj heq
  exact ⟨rfl, pair.2, hzip, by simpa using hsettlement⟩

/-- What was settled before stays so. -/
theorem Books.Sound.extend {books : Books} (h : books.Sound rt cap start) (journal : Journal)
    (acked rejected : List (DataType × BatchRecord))
    (hentries : journal.entries = books.journal.entries ++ more)
    (hacked : ∀ t message, (t, message) ∈ acked →
      Secured rt cap start t message books.journal.entries more)
    (hrejected : ∀ t message, (t, message) ∈ rejected → FailedAlone t message more) :
    Books.Sound rt cap start ⟨journal, books.acked ++ acked, books.rejected ++ rejected⟩ := by
  constructor
  case acked =>
    intro t message hmem
    rw [hentries]
    rcases List.mem_append.1 hmem with hold | hnew
    · exact @Secured.within _ _ _ _ _ [] [] _ more (h.acked t message hold)
    · have hsecured := hacked t message hnew
      rw [← List.nil_append books.journal.entries] at hsecured
      have hwithin := @Secured.within _ _ _ _ _ _ _ _ [] hsecured
      rwa [List.append_nil] at hwithin
  case rejected =>
    intro t message hmem
    rw [hentries]
    rcases List.mem_append.1 hmem with hold | hnew
    · exact @FailedAlone.within _ _ [] _ more (h.rejected t message hold)
    · have hwithin := @FailedAlone.within _ _ books.journal.entries _ [] (hrejected t message hnew)
      rwa [List.append_nil] at hwithin

theorem Books.Sound.flush {books : Books} (h : books.Sound rt cap start) (key : DataType)
    (payloads : List BatchRecord) :
    (Work.run rt cap start turns books (.flush key payloads)).Sound rt cap start := by
  obtain ⟨more, hentries, -, hresults⟩ :=
    @account_write rt cap start turns key payloads books.journal
  unfold Work.run
  simp only
  cases hreply : ((write key payloads).handled (respond rt cap start turns) books.journal).1 with
  | error e =>
    have hkept := h.extend _ [] [] hentries (by simp) (by simp)
    simpa using hkept
  | ok results =>
    have hcause : ∀ message result, (message, result) ∈ payloads.zip results →
        Accounted rt cap start key books.journal.entries more message result :=
      fun message result hzip => List.forall₂_zip (hresults results hreply) hzip
    refine h.extend _ _ _ hentries ?_ ?_
    · intro t message hmem
      obtain ⟨rfl, result, hzip, hack⟩ := mem_settledAs hmem
      have haccounted := hcause message result hzip
      rwa [Accounted, hack] at haccounted
    · intro t message hmem
      obtain ⟨rfl, result, hzip, hreject⟩ := mem_settledAs hmem
      have haccounted := hcause message result hzip
      rwa [Accounted, hreject] at haccounted

theorem Books.Sound.record {books : Books} (h : books.Sound rt cap start) (t : DataType)
    (dataId : String) (data : Document) :
    (Work.run rt cap start turns books (.record t dataId data)).Sound rt cap start := by
  unfold Work.run
  simp only
  cases hreply : (transactRecord rt cap start turns t dataId data books.journal).1 with
  | ok outcome =>
    obtain ⟨more, hjournal, hsecured⟩ := transactRecord_ok hreply
    have hkept := h.extend _ [(t, batchRecord dataId data)] []
      (congrArg Journal.entries hjournal) ?_ (by simp)
    · simpa using hkept
    · intro t' message hmem
      obtain ⟨rfl, rfl⟩ := Prod.mk.inj (List.mem_singleton.1 hmem)
      exact hsecured
  | error e =>
    obtain ⟨more, hjournal, entry, hentry, hown, hfailure, now, hop⟩ := transactRecord_failed hreply
    have hentries := congrArg Journal.entries hjournal
    have hleft := h.extend _ [] [] hentries (by simp) (by simp)
    rw [List.append_nil, List.append_nil] at hleft
    cases e with
    | cancelled => exact hleft
    | error kind =>
      cases kind with
      | transient => exact hleft
      | deterministic =>
        have hkept := h.extend _ [] [(t, batchRecord dataId data)] hentries (by simp) ?_
        · rwa [List.append_nil] at hkept
        · intro t' message hmem
          obtain ⟨rfl, rfl⟩ := Prod.mk.inj (List.mem_singleton.1 hmem)
          have halone : CarriesOnly t' (batchRecord dataId data) entry.op := by
            rw [hop]
            exact ⟨rfl, rfl⟩
          exact ⟨entry, hentry, hown, hfailure, halone⟩

theorem delivered_append (start : Store) (steps later : List (Operation × Bool)) :
    delivered rt cap t start (steps ++ later) =
      delivered rt cap t start steps ++ delivered rt cap t (resume rt cap start steps) later := by
  induction steps generalizing start with
  | nil => rfl
  | cons step steps ih =>
    obtain ⟨op, commits⟩ := step
    rw [List.cons_append, delivered, delivered, ih, List.append_assoc]
    rfl

/-- Whatever version of the document a transaction is handed, its hash is not null. -/
def HashGiven (t : DataType) (dataId : String) (steps : List (Operation × Bool)) : Prop :=
  ∀ step ∈ steps, ∀ record, Carries t record step.1 → record.dataId = dataId → record.sha256 ≠ .null

/-- A transaction writes the document of each record it carries. -/
theorem records_of_carries {op : Operation} (h : Carries t message op) :
    message.dataId ∈ (op.records t).map (·.dataId) := by
  cases op with
  | processBatch now t' messages =>
    obtain ⟨rfl, hmessage⟩ := h
    have hmem : message.dataId ∈ messages.map (·.dataId) := List.mem_map_of_mem hmessage
    obtain ⟨last, hlast⟩ := getLast_versionsOf hmem
    obtain ⟨-, hid⟩ := mem_of_getLast_versionsOf hlast
    rw [← find_latest] at hlast
    simp only [Operation.records, Operation.writes, if_true]
    exact List.mem_map.2 ⟨last, List.mem_of_find?_eq_some hlast, hid⟩
  | persistRecord now t' dataId data =>
    obtain ⟨rfl, rfl⟩ := h
    simp [Operation.records, Operation.writes]
  | purgeStaleRows t' startedAt recordCount => exact h.elim

theorem carries_of_records {op : Operation} (h : message ∈ op.records t) : Carries t message op := by
  cases op with
  | processBatch now t' messages =>
    simp only [Operation.records, Operation.writes] at h
    split at h
    · next ht => exact ⟨ht, mem_of_mem_latest h⟩
    · exact absurd h List.not_mem_nil
  | persistRecord now t' dataId data =>
    simp only [Operation.records, Operation.writes] at h
    split at h
    · next ht => exact ⟨ht, (List.mem_singleton.1 h).symm⟩
    · exact absurd h List.not_mem_nil
  | purgeStaleRows t' startedAt recordCount => exact absurd h List.not_mem_nil

/-- A secured record is among the deliveries, whatever comes later. -/
theorem Secured.delivered {later : List (Operation × Bool)}
    (h : Secured rt cap start t message [] more) (hgiven : HashGiven t message.dataId (more.map Entry.step ++ later)) :
    message.dataId ∈
      (hashed (Tableinator.delivered rt cap t start (more.map Entry.step ++ later))).map (·.dataId) := by
  obtain ⟨first, op, rest, rfl, hcarries, hrun⟩ := h
  rw [List.nil_append] at hrun
  -- The deliveries are those before the transaction, its own records, and those after it.
  have hmine : op.delivers rt cap t (resume rt cap start (first.map Entry.step)) true =
      op.records t := by
    rw [Operation.delivers, hrun]
    rfl
  rw [List.map_append, List.append_assoc, delivered_append, List.map_cons, List.cons_append]
  have hcons : Tableinator.delivered rt cap t (resume rt cap start (first.map Entry.step))
      ((Entry.step ⟨true, op, true, none⟩) :: (rest.map Entry.step ++ later)) =
      op.delivers rt cap t (resume rt cap start (first.map Entry.step)) true ++
        Tableinator.delivered rt cap t
          (op.settle rt cap (resume rt cap start (first.map Entry.step)) true)
          (rest.map Entry.step ++ later) := rfl
  rw [hcons, hmine]
  obtain ⟨record, hrecord, hid⟩ := List.mem_map.1 (records_of_carries hcarries)
  have hnull : record.sha256 ≠ .null := by
    refine hgiven (op, true) ?_ record (carries_of_records hrecord) hid
    simp [Entry.step]
  have hhash : ∃ hash, record.sha256 = .str hash := by
    cases hleft : op.run rt cap (resume rt cap start (first.map Entry.step)) with
    | error e =>
      rw [hleft] at hrun
      cases hrun
    | ok left =>
      obtain ⟨stored, hadmitted⟩ := Operation.records_admitted hleft hrecord
      exact hadmitted.text hnull
  refine List.mem_map.2 ⟨record, mem_hashed.2 ⟨?_, hhash⟩, hid⟩
  exact List.mem_append_right _ (List.mem_append_left _ hrecord)

end

/-! ## A write that has to be repeated -/

/-- The batch fails for good, then the answer to one of its halves is lost. -/
def lostAnswer (n : Nat) : Turn where
  beside := []
  now := 11 + n
  kind := .transient
  fault := if n = 0 then some ⟨.error .deterministic, false⟩
    else if n = 2 then some ⟨.error .transient, true⟩ else none

end Tableinator.Batch
