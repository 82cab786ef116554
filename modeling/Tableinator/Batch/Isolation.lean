import Tableinator.Batch.Observer
import Tableinator.Effect.Trace
import Tableinator.Store.Resubmission

/-! # Poison isolation

`PostgreSQLBatchSink` writes a batch in one transaction.  When that fails for a reason that
will not go away it bisects the batch, commits what commits, and rejects the records that
fail alone.  It commits while it still searches, so an outage half way leaves part of the
batch behind. -/

namespace Tableinator.Batch

open Effect Effect.Program

/-! ## The sink -/

/-- `common.delivery.FailureKind`. -/
inductive FailureKind where
  | deterministic
  | transient
  deriving DecidableEq, Repr

/-- What an attempt raises: an exception, as the failure classifier reads it, or the
    cancellation of the task, which `except Exception` lets pass. -/
inductive WriteFailure where
  | error (kind : FailureKind)
  | cancelled
  deriving DecidableEq, Repr

inductive SinkCall : Type → Type where
  | processBatch (key : DataType) (messages : List BatchRecord) : SinkCall BatchWriteResult
  | writeFailed (key : DataType) (error : WriteFailure) (recordIds : List String) : SinkCall Unit
  | writeResult (key : DataType) (result : BatchWriteResult) : SinkCall Unit

abbrev Sink (α : Type) := Program SinkCall WriteFailure α

/-- `common.batch.BatchItemResult`. -/
structure BatchItemResult where
  settlement : Settlement
  outcome : String
  deriving DecidableEq, Repr

/-- `_outcome`. -/
def outcome (message : BatchRecord) (result : BatchWriteResult) : String :=
  if message.dataId ∈ result.mediaBackfilledIds then "media_backfilled"
  else if message.dataId ∈ result.unchangedIds then "skipped"
  else "processed"

def acks (messages : List BatchRecord) (result : BatchWriteResult) : List BatchItemResult :=
  messages.map fun message => ⟨.ack, outcome message result⟩

section

variable (key : DataType)

/-- One turn of the loop over the halves; `isolated` goes on with a half that fails in the
    same way. -/
def writeHalf (half : List BatchRecord) (isolated : WriteFailure → Sink (List BatchItemResult)) :
    Sink (List BatchItemResult) :=
  (await (.processBatch key half)).follow fun
    | .ok result => do
      await (.writeResult key result)
      pure (acks half result)
    | .error .cancelled => .raise .cancelled
    | .error (.error .deterministic) => isolated (.error .deterministic)
    | .error (.error .transient) => do
      await (.writeFailed key (.error .transient) [])
      .raise (.error .transient)

/-- `_isolate`.  It is never called without a payload. -/
def isolate (payloads : List BatchRecord) (error : WriteFailure) : Sink (List BatchItemResult) :=
  if _ : payloads.length ≤ 1 then do
    await (.writeFailed key error (payloads.map (·.dataId)))
    pure (payloads.map fun _ => ⟨.reject, "poison"⟩)
  else do
    let left ← writeHalf key (payloads.take (payloads.length / 2)) fun halfError =>
      isolate (payloads.take (payloads.length / 2)) halfError
    let right ← writeHalf key (payloads.drop (payloads.length / 2)) fun halfError =>
      isolate (payloads.drop (payloads.length / 2)) halfError
    pure (left ++ right)
termination_by payloads.length
decreasing_by
  · rw [List.length_take]
    omega
  · rw [List.length_drop]
    omega

def write (payloads : List BatchRecord) : Sink (List BatchItemResult) :=
  (await (.processBatch key payloads)).follow fun
    | .ok result => do
      await (.writeResult key result)
      pure (acks payloads result)
    | .error .cancelled => do
      await (.writeFailed key .cancelled [])
      .raise .cancelled
    | .error (.error kind) =>
      if 1 < payloads.length ∧ kind = .deterministic then isolate key payloads (.error kind)
      else do
        await (.writeFailed key (.error kind) (payloads.map (·.dataId)))
        .raise (.error kind)

end

/-! ## Attempts

A batch with a poison message fails deterministically, whatever the transaction would have
made of it.  A fault makes an attempt fail in another way: either its transaction is rolled
back, or it commits and the answer is lost. -/

structure Fault where
  error : WriteFailure
  committed : Bool

/-- The attempts so far, with the batches that were committed and when. -/
structure Attempts where
  store : Store
  made : Nat
  committed : List (Time × List BatchRecord)

section

variable (rt : Runtime) (poison : BatchRecord → Bool) (clock : Nat → Time) (fault : Nat → Option Fault)

def attempt (key : DataType) (messages : List BatchRecord) (s : Attempts) :
    Except WriteFailure BatchWriteResult × Attempts :=
  let rolledBack := { s with made := s.made + 1 }
  let transaction := (processBatch rt (clock s.made) key messages).serial engine.alone s.store
  match if messages.any poison then none else transaction.toOption, fault s.made with
  | none, none => (.error (.error .deterministic), rolledBack)
  | none, some f => (.error f.error, rolledBack)
  | some (result, store), none =>
    (.ok result, ⟨store, s.made + 1, s.committed ++ [(clock s.made, messages)]⟩)
  | some (_, store), some f =>
    (.error f.error, if f.committed then
      ⟨store, s.made + 1, s.committed ++ [(clock s.made, messages)]⟩ else rolledBack)

def answer : {ρ : Type} → SinkCall ρ → Attempts → Except WriteFailure ρ × Attempts
  | _, .processBatch key messages, s => attempt rt poison clock fault key messages s
  | _, .writeFailed _ _ _, s => (.ok (), s)
  | _, .writeResult _ _, s => (.ok (), s)

def runWrite (key : DataType) (messages : List BatchRecord) (st : Store) :
    Except WriteFailure (List BatchItemResult) × Attempts :=
  (write key messages).handled (answer rt poison clock fault) ⟨st, 0, []⟩

end

/-! ## Commits -/

def logged (log : List (Time × List BatchRecord)) : List BatchRecord := log.flatMap Prod.snd

/-- When a row was last written, after these commits. -/
def lastWritten (log : List (Time × List BatchRecord)) (dataId : String) (before : Option Time) :
    Option Time :=
  log.foldl (fun written commit =>
    if dataId ∈ commit.2.map (·.dataId) then some commit.1 else written) before

/-- What these commits make of a store. -/
structure Committed (rt : Runtime) (key : DataType) (log : List (Time × List BatchRecord))
    (st st' : Store) : Prop where
  leaves : Leaves rt key st (logged log) st'
  others : ∀ t' dataId, t' ≠ key → st'.writtenAt t' dataId = st.writtenAt t' dataId
  written : ∀ dataId, st'.writtenAt key dataId = lastWritten log dataId (st.writtenAt key dataId)

section

variable {rt : Runtime} {key : DataType} {st mid st' : Store} {log rest : List (Time × List BatchRecord)}

theorem logged_append : logged (log ++ rest) = logged log ++ logged rest := List.flatMap_append

theorem Committed.nil : Committed rt key [] st st where
  leaves := Leaves.nil
  others _ _ _ := rfl
  written _ := rfl

theorem Committed.append (hids : ((logged (log ++ rest)).map (·.dataId)).Nodup)
    (hfirst : Committed rt key log st mid) (hrest : Committed rt key rest mid st') :
    Committed rt key (log ++ rest) st st' := by
  constructor
  case leaves =>
    rw [logged_append] at hids ⊢
    exact hfirst.leaves.append hids hrest.leaves
  case others =>
    intro t' dataId ht
    rw [hrest.others t' dataId ht, hfirst.others t' dataId ht]
  case written =>
    intro dataId
    rw [hrest.written, hfirst.written, lastWritten, lastWritten, lastWritten, List.foldl_append]

/-- A batch of accepted messages commits. -/
theorem processBatch_committed {messages : List BatchRecord} (now : Time) (st : Store)
    (hids : (messages.map (·.dataId)).Nodup) (haccepts : ∀ m ∈ messages, Accepts rt key m) :
    ∃ result st', (processBatch rt now key messages).serial engine.alone st = .ok (result, st') ∧
      Committed rt key [(now, messages)] st st' := by
  have hlatest := latest_of_nodup hids
  have hadmits : ∀ m ∈ latest messages, Admits rt key (st.hash key m.dataId) m := by
    rw [hlatest]
    exact fun m hm => (haccepts m hm).admits _
  obtain ⟨result, st', hserial, hleaves⟩ := @processBatch_leaves rt key st messages now hadmits
  have hstamped := processBatch_stamped hserial
  have hlogged : logged [(now, messages)] = messages := List.append_nil messages
  rw [hlatest] at hleaves hstamped
  refine ⟨result, st', hserial, by rwa [hlogged], hstamped.others, fun dataId => ?_⟩
  rw [hstamped.written, lastWritten, List.foldl_cons, List.foldl_nil]
  by_cases hid : dataId ∈ messages.map (·.dataId)
  · obtain ⟨record, hrecord, rfl⟩ := List.mem_map.1 hid
    -- an accepted record has a text hash, so its row is stamped
    obtain ⟨hash, htext, -⟩ := (haccepts record hrecord).text
    rw [if_pos hid, if_pos hid, hleaves.hash hrecord, htext, hashAfter_str]
    rfl
  · rw [if_neg hid, if_neg hid]

/-- Commits that write a row say when, whatever was there. -/
theorem lastWritten_of_mem {dataId : String} (h : dataId ∈ (logged log).map (·.dataId))
    (before before' : Option Time) : lastWritten log dataId before = lastWritten log dataId before' := by
  induction log generalizing before before' with
  | nil => simp [logged] at h
  | cons commit log ih =>
    simp only [lastWritten, List.foldl_cons] at ih ⊢
    by_cases hmine : dataId ∈ commit.2.map (·.dataId)
    · rw [if_pos hmine, if_pos hmine]
    · rw [if_neg hmine, if_neg hmine]
      refine ih ?_ before before'
      rw [logged, List.flatMap_cons, List.map_append, List.mem_append] at h
      exact h.resolve_left hmine

theorem lastWritten_of_notMem {dataId : String} (h : dataId ∉ (logged log).map (·.dataId))
    (before : Option Time) : lastWritten log dataId before = before := by
  induction log with
  | nil => rfl
  | cons commit log ih =>
    rw [logged, List.flatMap_cons, List.map_append, List.mem_append, not_or] at h
    rw [lastWritten, List.foldl_cons, if_neg h.1]
    exact ih h.2

/-- Commits that repeat the first of them leave the store that they leave alone. -/
theorem Committed.again {tried : List (Time × List BatchRecord)} {a b : Store}
    (hids : ((logged log).map (·.dataId)).Nodup)
    (htexts : ∀ record ∈ logged log, ∃ hash, record.sha256 = .str hash) (hpart : logged tried <+: logged log)
    (htried : Committed rt key tried st mid) (hagain : Committed rt key log mid a)
    (honce : Committed rt key log st b) : a = b := by
  refine Store.Same.eq ((htried.leaves.again hids htexts hpart hagain.leaves).same honce.leaves) ?_
  intro t' dataId
  by_cases ht : t' = key
  · subst ht
    rw [hagain.written, honce.written]
    by_cases hmem : dataId ∈ (logged log).map (·.dataId)
    · -- a row the log writes has its time from there, any other one was left alone throughout
      exact lastWritten_of_mem hmem _ _
    · have htriedNot : dataId ∉ (logged tried).map (·.dataId) :=
        fun htriedMem => hmem ((hpart.sublist.map _).subset htriedMem)
      rw [htried.written, lastWritten_of_notMem htriedNot]
  · rw [hagain.others t' dataId ht, htried.others t' dataId ht, honce.others t' dataId ht]

end

/-! ## What becomes of a part of the batch -/

section

variable (poison : BatchRecord → Bool)

def verdict (message : BatchRecord) : Settlement := if poison message then .reject else .ack

def healthy (messages : List BatchRecord) : List BatchRecord := messages.filter fun m => !poison m

/-- Attempts `n` to `made` either deal with all of the messages, or a fault breaks off. -/
structure Course (fault : Nat → Option Fault) (messages : List BatchRecord) (n made : Nat)
    (log : List (Time × List BatchRecord)) (raised : Option WriteFailure) : Prop where
  counted : n ≤ made
  finished : raised = none → logged log = healthy poison messages ∧ ∀ i, n ≤ i → i < made → fault i = none
  broken : ∀ e, raised = some e → logged log <+: healthy poison messages ∧
    ∃ i f, n ≤ i ∧ i < made ∧ fault i = some f ∧ f.error = e

/-- The program makes these commits on any store, and raises or returns a settlement for each
    of the messages. -/
def Makes (rt : Runtime) (clock : Nat → Time) (fault : Nat → Option Fault) (key : DataType)
    (messages : List BatchRecord) (n made : Nat) (log : List (Time × List BatchRecord))
    (raised : Option WriteFailure) (program : Sink (List BatchItemResult)) : Prop :=
  ∀ st committed, ∃ st' reply,
    program.handled (answer rt poison clock fault) ⟨st, n, committed⟩ =
      (reply, ⟨st', made, committed ++ log⟩) ∧
    Committed rt key log st st' ∧
    match raised with
    | none => ∃ results, reply = .ok results ∧ results.map (·.settlement) = messages.map (verdict poison)
    | some e => reply = .error e

/-- What comes of a program does not depend on the store it finds. -/
def Settles (rt : Runtime) (clock : Nat → Time) (fault : Nat → Option Fault) (key : DataType)
    (messages : List BatchRecord) (n : Nat) (program : Sink (List BatchItemResult)) : Prop :=
  ∃ made log raised, Course poison fault messages n made log raised ∧
    Makes poison rt clock fault key messages n made log raised program

end

section

variable {rt : Runtime} {poison : BatchRecord → Bool} {clock : Nat → Time} {fault : Nat → Option Fault}
  {key : DataType} {messages first rest : List BatchRecord}

theorem healthy_of_none (h : messages.any poison = false) : healthy poison messages = messages := by
  rw [List.any_eq_false] at h
  refine List.filter_eq_self.2 fun m hm => ?_
  simpa using h m hm

theorem verdict_of_none (h : messages.any poison = false) (result : BatchWriteResult) :
    (acks messages result).map (·.settlement) = messages.map (verdict poison) := by
  rw [List.any_eq_false] at h
  rw [acks, List.map_map]
  refine List.map_congr_left fun m hm => ?_
  simp [verdict, h m hm]

theorem logged_single (now : Time) (messages : List BatchRecord) : logged [(now, messages)] = messages :=
  List.append_nil messages

theorem attempt_fault {s : Attempts} {f : Fault} (h : fault s.made = some f) :
    (attempt rt poison clock fault key messages s).1 = .error f.error := by
  simp only [attempt, h]
  split <;> simp_all

/-- An attempt on a part of the batch that holds a poison message. -/
theorem attempt_poison (h : messages.any poison = true) (s : Attempts) :
    attempt rt poison clock fault key messages s =
      (.error ((fault s.made).elim (.error .deterministic) Fault.error),
        { s with made := s.made + 1 }) := by
  simp only [attempt, h, if_true]
  cases fault s.made with
  | none => rfl
  | some f => rfl

theorem attempt_healthy (h : messages.any poison = false) (hids : (messages.map (·.dataId)).Nodup)
    (haccepts : ∀ m ∈ messages, poison m = false → Accepts rt key m) (s : Attempts) :
    ∃ result st', Committed rt key [(clock s.made, messages)] s.store st' ∧
      attempt rt poison clock fault key messages s =
        let done : Attempts := ⟨st', s.made + 1, s.committed ++ [(clock s.made, messages)]⟩
        match fault s.made with
        | none => (.ok result, done)
        | some f => (.error f.error, if f.committed then done else { s with made := s.made + 1 }) := by
  have haccepted : ∀ m ∈ messages, Accepts rt key m := by
    intro m hm
    rw [List.any_eq_false] at h
    exact haccepts m hm (by simpa using h m hm)
  obtain ⟨result, st', hserial, hcommitted⟩ :=
    processBatch_committed (clock s.made) s.store hids haccepted
  refine ⟨result, st', hcommitted, ?_⟩
  simp only [attempt, h, Bool.false_eq_true, if_false, hserial, Except.toOption]
  cases fault s.made with
  | none => rfl
  | some f => rfl

/-- A fault ends the program; what its attempt committed is a first part of the messages. -/
theorem settles_of_fault {n : Nat} {f : Fault} {program : Sink (List BatchItemResult)}
    (hids : (messages.map (·.dataId)).Nodup)
    (haccepts : ∀ m ∈ messages, poison m = false → Accepts rt key m) (hfault : fault n = some f)
    (hraise : ∀ st committed, program.handled (answer rt poison clock fault) ⟨st, n, committed⟩ =
      (.error f.error, (attempt rt poison clock fault key messages ⟨st, n, committed⟩).2)) :
    Settles poison rt clock fault key messages n program := by
  have hbroken : ∀ log, logged log <+: healthy poison messages →
      Course poison fault messages n (n + 1) log (some f.error) := by
    intro log hlog
    refine ⟨by omega, by simp, ?_⟩
    intro e he
    exact ⟨hlog, n, f, by omega, by omega, hfault, Option.some.inj he⟩
  have hnothing : (∀ st committed, (attempt rt poison clock fault key messages ⟨st, n, committed⟩).2 =
      ⟨st, n + 1, committed⟩) → Settles poison rt clock fault key messages n program := by
    intro hsame
    refine ⟨n + 1, [], some f.error, hbroken [] List.nil_prefix, fun st committed => ?_⟩
    refine ⟨st, .error f.error, ?_, Committed.nil, rfl⟩
    rw [hraise, hsame, List.append_nil]
  cases hpoison : messages.any poison with
  | true => exact hnothing fun st committed => by rw [attempt_poison hpoison]
  | false =>
    cases hcommitted : f.committed with
    | false =>
      refine hnothing fun st committed => ?_
      obtain ⟨result, st', -, hattempt⟩ := @attempt_healthy rt poison clock fault key messages hpoison hids
        haccepts ⟨st, n, committed⟩
      rw [hattempt, hfault]
      simp [hcommitted]
    | true =>
      have hlog : logged [(clock n, messages)] <+: healthy poison messages := by
        rw [logged_single, healthy_of_none hpoison]
      refine ⟨n + 1, [(clock n, messages)], some f.error, hbroken _ hlog, fun st committed => ?_⟩
      obtain ⟨result, st', hwritten, hattempt⟩ := @attempt_healthy rt poison clock fault key messages hpoison
        hids haccepts ⟨st, n, committed⟩
      refine ⟨st', .error f.error, ?_, hwritten, rfl⟩
      rw [hraise, hattempt, hfault]
      simp [hcommitted]

/-- A part without a poison message is committed and acked. -/
theorem settles_of_healthy {n : Nat} {program : Sink (List BatchItemResult)}
    (hpoison : messages.any poison = false) (hids : (messages.map (·.dataId)).Nodup)
    (haccepts : ∀ m ∈ messages, poison m = false → Accepts rt key m) (hfault : fault n = none)
    (hreturn : ∀ s result, (attempt rt poison clock fault key messages s).1 = .ok result →
      program.handled (answer rt poison clock fault) s =
        (.ok (acks messages result), (attempt rt poison clock fault key messages s).2)) :
    Settles poison rt clock fault key messages n program := by
  refine ⟨n + 1, [(clock n, messages)], none, ⟨by omega, fun _ => ⟨?_, ?_⟩, by simp⟩, ?_⟩
  · rw [logged_single, healthy_of_none hpoison]
  · intro i hn hmade
    obtain rfl : i = n := by omega
    exact hfault
  · intro st committed
    obtain ⟨result, st', hwritten, hattempt⟩ := @attempt_healthy rt poison clock fault key messages hpoison
      hids haccepts ⟨st, n, committed⟩
    rw [hfault] at hattempt
    refine ⟨st', .ok (acks messages result), ?_, hwritten, _, rfl, verdict_of_none hpoison result⟩
    rw [hreturn _ result (by rw [hattempt]), hattempt]

/-- The attempt that found the poison comes before what becomes of the messages. -/
theorem Settles.after {n : Nat} {program isolated : Sink (List BatchItemResult)} (hfault : fault n = none)
    (hisolated : Settles poison rt clock fault key messages (n + 1) isolated)
    (hgoes : ∀ st committed, program.handled (answer rt poison clock fault) ⟨st, n, committed⟩ =
      isolated.handled (answer rt poison clock fault) ⟨st, n + 1, committed⟩) :
    Settles poison rt clock fault key messages n program := by
  obtain ⟨made, log, raised, ⟨hcounted, hfinished, hbroken⟩, hmakes⟩ := hisolated
  refine ⟨made, log, raised, ⟨by omega, ?_, ?_⟩, fun st committed => ?_⟩
  · intro hnone
    obtain ⟨hlogged, hclean⟩ := hfinished hnone
    refine ⟨hlogged, fun i hn hmade => ?_⟩
    rcases Nat.eq_or_lt_of_le hn with rfl | hlater
    · exact hfault
    · exact hclean i hlater hmade
  · intro e he
    obtain ⟨hlogged, i, f, hn, hmade, hi, hf⟩ := hbroken e he
    exact ⟨hlogged, i, f, by omega, hmade, hi, hf⟩
  · rw [hgoes]
    exact hmakes st committed

theorem healthy_append : healthy poison (first ++ rest) = healthy poison first ++ healthy poison rest :=
  List.filter_append first rest

/-- One part, and then, unless a fault broke off, the other. -/
theorem Settles.append {n : Nat} {left right : Sink (List BatchItemResult)}
    (hids : ((first ++ rest).map (·.dataId)).Nodup)
    (hleft : Settles poison rt clock fault key first n left)
    (hright : ∀ n, Settles poison rt clock fault key rest n right) :
    Settles poison rt clock fault key (first ++ rest) n (do
      let firstResults ← left
      let restResults ← right
      pure (firstResults ++ restResults)) := by
  obtain ⟨made, log, raised, hfirst, hmakes⟩ := hleft
  cases raised with
  | some e =>
    obtain ⟨hlogged, hhit⟩ := hfirst.broken e rfl
    have hpart : logged log <+: healthy poison (first ++ rest) := by
      rw [healthy_append]
      exact hlogged.trans (List.prefix_append _ _)
    refine ⟨made, log, some e, ⟨hfirst.counted, by simp, ?_⟩, fun st committed => ?_⟩
    · intro e' he
      obtain rfl := Option.some.inj he
      exact ⟨hpart, hhit⟩
    · obtain ⟨st', reply, hrun, hcommitted, rfl⟩ := hmakes st committed
      exact ⟨st', .error e, by rw [handled_bind, hrun], hcommitted, rfl⟩
  | none =>
    obtain ⟨hloggedFirst, hcleanFirst⟩ := hfirst.finished rfl
    obtain ⟨made', log', raised, hrest, hmakes'⟩ := hright made
    have hpart : logged (log ++ log') <+: healthy poison (first ++ rest) := by
      rw [logged_append, healthy_append, hloggedFirst]
      refine List.prefix_append_right_inj (healthy poison first) |>.2 ?_
      cases raised with
      | none => rw [(hrest.finished rfl).1]
      | some e => exact (hrest.broken e rfl).1
    have hdistinct : ((logged (log ++ log')).map (·.dataId)).Nodup :=
      hids.sublist ((hpart.sublist.trans List.filter_sublist).map _)
    refine ⟨made', log ++ log', raised, ⟨hfirst.counted.trans hrest.counted, ?_, ?_⟩,
      fun st committed => ?_⟩
    · intro hnone
      obtain ⟨hloggedRest, hcleanRest⟩ := hrest.finished hnone
      refine ⟨by rw [logged_append, healthy_append, hloggedFirst, hloggedRest], fun i hn hmade => ?_⟩
      rcases Nat.lt_or_ge i made with hearly | hlate
      · exact hcleanFirst i hn hearly
      · exact hcleanRest i hlate hmade
    · intro e he
      obtain ⟨-, i, f, hn, hmade, hi, hf⟩ := hrest.broken e he
      exact ⟨hpart, i, f, hfirst.counted.trans hn, hmade, hi, hf⟩
    · obtain ⟨mid, reply, hrun, hcommitted, results, rfl, hresults⟩ := hmakes st committed
      obtain ⟨st', reply', hrun', hcommitted', hreply'⟩ := hmakes' mid (committed ++ log)
      rw [List.append_assoc] at hrun'
      cases raised with
      | some e =>
        obtain rfl := hreply'
        refine ⟨st', .error e, ?_, hcommitted.append hdistinct hcommitted', rfl⟩
        simp only [handled_bind, hrun, hrun']
      | none =>
        obtain ⟨results', rfl, hresults'⟩ := hreply'
        refine ⟨st', .ok (results ++ results'), ?_, hcommitted.append hdistinct hcommitted',
          results ++ results', rfl, ?_⟩
        · simp only [handled_bind, hrun, hrun', handled_pure]
        · rw [List.map_append, List.map_append, hresults, hresults']

end

/-! ## The sink's programs -/

section

variable {rt : Runtime} {poison : BatchRecord → Bool} {clock : Nat → Time} {fault : Nat → Option Fault}
  {key : DataType}

/-- Every fault is of the other kind. -/
def Transient (fault : Nat → Option Fault) : Prop :=
  ∀ n f, fault n = some f → f.error ≠ .error .deterministic

theorem settles_writeHalf {half : List BatchRecord} {isolated : WriteFailure → Sink (List BatchItemResult)}
    (htransient : Transient fault) (hids : (half.map (·.dataId)).Nodup)
    (haccepts : ∀ m ∈ half, poison m = false → Accepts rt key m)
    (hisolated : half.any poison = true → ∀ n,
      Settles poison rt clock fault key half n (isolated (.error .deterministic))) (n : Nat) :
    Settles poison rt clock fault key half n (writeHalf key half isolated) := by
  cases hfault : fault n with
  | some f =>
    refine settles_of_fault hids haccepts hfault fun st committed => ?_
    have hraised : (attempt rt poison clock fault key half ⟨st, n, committed⟩).1 = .error f.error :=
      attempt_fault hfault
    have hkind := htransient n f hfault
    rw [writeHalf, handled_follow, handled_await, answer, hraised]
    match hf : f.error, hkind with
    | .cancelled, _ => rfl
    | .error .transient, _ => rfl
    | .error .deterministic, hkind => exact absurd rfl hkind
  | none =>
    cases hpoison : half.any poison with
    | true =>
      refine Settles.after hfault (hisolated hpoison (n + 1)) fun st committed => ?_
      rw [writeHalf, handled_follow, handled_await, answer, attempt_poison hpoison, hfault]
      rfl
    | false =>
      refine settles_of_healthy hpoison hids haccepts hfault fun s result hresult => ?_
      rw [writeHalf, handled_follow, handled_await, answer, hresult]
      rfl

/-- `_isolate` of a part that holds a poison message, by induction on its length. -/
theorem settles_isolate (htransient : Transient fault) {payloads : List BatchRecord}
    (hids : (payloads.map (·.dataId)).Nodup)
    (haccepts : ∀ m ∈ payloads, poison m = false → Accepts rt key m)
    (hpoison : payloads.any poison = true) (error : WriteFailure) (n : Nat) :
    Settles poison rt clock fault key payloads n (isolate key payloads error) := by
  induction hlength : payloads.length using Nat.strong_induction_on generalizing payloads error n with
  | _ length ih =>
    subst hlength
    rw [isolate]
    split
    · next hshort =>
      -- The one message that is left is the poison.
      obtain ⟨message, rfl⟩ : ∃ message, payloads = [message] := by
        cases payloads with
        | nil => simp at hpoison
        | cons message rest => exact ⟨message, by simpa using hshort⟩
      have hmessage : poison message = true := by simpa using hpoison
      refine ⟨n, [], none, ⟨by omega, fun _ => ⟨?_, ?_⟩, by simp⟩, fun st committed => ?_⟩
      · simp [logged, healthy, hmessage]
      · intro i hn hmade
        omega
      · refine ⟨st, _, ?_, Committed.nil, [⟨.reject, "poison"⟩], rfl, by simp [verdict, hmessage]⟩
        rw [handled_bind, handled_await, answer, List.append_nil]
        rfl
    · next hlong =>
      have hparts := List.take_append_drop (payloads.length / 2) payloads
      have hhalf : ∀ half : List BatchRecord, half.Sublist payloads → half.length < payloads.length → ∀ n,
          Settles poison rt clock fault key half n
            (writeHalf key half fun halfError => isolate key half halfError) := by
        intro half hsub hshorter n
        have hhalfIds : (half.map (·.dataId)).Nodup := hids.sublist (hsub.map _)
        have hhalfAccepts : ∀ m ∈ half, poison m = false → Accepts rt key m :=
          fun m hm => haccepts m (hsub.subset hm)
        refine settles_writeHalf htransient hhalfIds hhalfAccepts ?_ n
        intro hhalfPoison n
        exact ih half.length hshorter hhalfIds hhalfAccepts hhalfPoison _ n rfl
      have hleft := hhalf (payloads.take (payloads.length / 2)) (List.take_sublist _ _)
        (by rw [List.length_take]; omega)
      have hright := hhalf (payloads.drop (payloads.length / 2)) (List.drop_sublist _ _)
        (by rw [List.length_drop]; omega)
      have happend := Settles.append (by rwa [hparts]) (hleft n) hright
      rwa [hparts] at happend

theorem settles_write (htransient : Transient fault) {payloads : List BatchRecord}
    (htwo : 2 ≤ payloads.length) (hids : (payloads.map (·.dataId)).Nodup)
    (haccepts : ∀ m ∈ payloads, poison m = false → Accepts rt key m) (n : Nat) :
    Settles poison rt clock fault key payloads n (write key payloads) := by
  cases hfault : fault n with
  | some f =>
    refine settles_of_fault hids haccepts hfault fun st committed => ?_
    have hraised : (attempt rt poison clock fault key payloads ⟨st, n, committed⟩).1 = .error f.error :=
      attempt_fault hfault
    have hkind := htransient n f hfault
    rw [write, handled_follow, handled_await, answer, hraised]
    match hf : f.error, hkind with
    | .cancelled, _ => rfl
    | .error .transient, _ =>
      have hnot : ¬(1 < payloads.length ∧ FailureKind.transient = .deterministic) := by simp
      simp only [if_neg hnot]
      rfl
    | .error .deterministic, hkind => exact absurd rfl hkind
  | none =>
    cases hpoison : payloads.any poison with
    | true =>
      have hisolated := @settles_isolate rt poison clock fault key htransient payloads hids haccepts hpoison
        (.error .deterministic) (n + 1)
      refine Settles.after hfault hisolated fun st committed => ?_
      have hmany : 1 < payloads.length := by omega
      rw [write, handled_follow, handled_await, answer, attempt_poison hpoison, hfault, Option.elim]
      simp only [hmany, and_self, if_true]
    | false =>
      refine settles_of_healthy hpoison hids haccepts hfault fun s result hresult => ?_
      rw [write, handled_follow, handled_await, answer, hresult]
      rfl

end

/-! ## One write -/

def noFault : Nat → Option Fault := fun _ => none

theorem transient_noFault : Transient noFault := fun _ _ h => nomatch h

section

variable {rt : Runtime} {key : DataType} {messages : List BatchRecord} {poison : BatchRecord → Bool}

/-- A store with a row of the id in every table. -/
def rowStore (dataId : String) : Store :=
  { Store.empty with entities := fun _ => Relational.Table.empty.insert dataId ⟨"", .null, none, none, 0⟩ }

theorem hash_rowStore (dataId : String) : (rowStore dataId).hash key dataId = some "" := by
  simp [Store.hash, rowStore]

/-- A message that commits alone, whatever is stored, is one that no path refuses. -/
theorem accepts_of_commits
    (hcommits : ∀ batch, batch <:+: messages → batch.any poison = false → ∀ now st, ∃ result st',
      (processBatch rt now key batch).serial engine.alone st = .ok (result, st')) :
    ∀ m ∈ messages, poison m = false → Accepts rt key m := by
  intro m hm hhealthy
  obtain ⟨before, after, rfl⟩ := List.append_of_mem hm
  have halone : [m] <:+: before ++ m :: after := ⟨before, after, by simp⟩
  have hadmits : ∀ st : Store, Admits rt key (st.hash key m.dataId) m := by
    intro st
    obtain ⟨result, st', hserial⟩ := hcommits [m] halone (by simp [hhealthy]) 0 st
    exact admits_of_processBatch hserial m (List.mem_singleton_self m)
  refine ⟨(hadmits Store.empty).toIdentifiable, ?_⟩
  cases hsame : sameHash (Store.empty.hash key m.dataId) m.sha256 with
  | false => exact (hadmits Store.empty).taken hsame
  | true =>
    -- a null hash is no change where there is no row, so there is one
    have hnull : m.sha256 = .null := sameHash_none.1 hsame
    refine (hadmits (rowStore m.dataId)).taken ?_
    rw [hash_rowStore, hnull]
    rfl

/-- Without a fault every message is settled. -/
theorem runWrite_clean (clock : Nat → Time) (htwo : 2 ≤ messages.length)
    (hids : (messages.map (·.dataId)).Nodup)
    (haccepts : ∀ m ∈ messages, poison m = false → Accepts rt key m) :
    ∃ log, logged log = healthy poison messages ∧ ∀ st, ∃ results made st',
      runWrite rt poison clock noFault key messages st = (.ok results, ⟨st', made, log⟩) ∧
      results.map (·.settlement) = messages.map (verdict poison) ∧ Committed rt key log st st' := by
  obtain ⟨made, log, raised, hcourse, hmakes⟩ :=
    @settles_write rt poison clock noFault key transient_noFault messages htwo hids haccepts 0
  cases raised with
  | some e =>
    obtain ⟨-, i, f, -, -, hfault, -⟩ := hcourse.broken e rfl
    cases hfault
  | none =>
    refine ⟨log, (hcourse.finished rfl).1, fun st => ?_⟩
    obtain ⟨st', reply, hrun, hcommitted, results, rfl, hresults⟩ := hmakes st []
    exact ⟨results, made, st', hrun, hresults, hcommitted⟩

end

/-- Poison isolation is exact: exactly the poison messages are rejected, each healthy message is
    committed by one attempt and no poison message by any; and a write that another failure broke
    off settles nothing and makes no difference to a later one. -/
theorem poison_isolation_is_exact (rt : Runtime) (key : DataType) (messages : List BatchRecord)
    (poison : BatchRecord → Bool) (clock : Nat → Time) (st : Store) (htwo : 2 ≤ messages.length)
    (hids : (messages.map (·.dataId)).Nodup)
    (hcommits : ∀ batch, batch <:+: messages → batch.any poison = false → ∀ now st, ∃ result st',
      (processBatch rt now key batch).serial engine.alone st = .ok (result, st')) :
    (∃ results last, runWrite rt poison clock noFault key messages st = (.ok results, last) ∧
      results.map (·.settlement) = messages.map (verdict poison) ∧
      logged last.committed = healthy poison messages ∧
      Leaves rt key st (healthy poison messages) last.store) ∧
    ∀ fault, Transient fault → ∀ reply failed,
      runWrite rt poison clock fault key messages st = (reply, failed) →
      (∃ i < failed.made, (fault i).isSome = true) →
      (∃ e, reply = .error e) ∧ ∀ later, ∃ again once lastAgain lastOnce,
        runWrite rt poison later noFault key messages failed.store = (.ok again, lastAgain) ∧
        runWrite rt poison later noFault key messages st = (.ok once, lastOnce) ∧
        again.map (·.settlement) = once.map (·.settlement) ∧ lastAgain.store = lastOnce.store := by
  have haccepts := accepts_of_commits hcommits
  constructor
  · obtain ⟨log, hlogged, hclean⟩ := @runWrite_clean rt key messages poison clock htwo hids haccepts
    obtain ⟨results, made, st', hrun, hresults, hcommitted⟩ := hclean st
    exact ⟨results, ⟨st', made, log⟩, hrun, hresults, hlogged, hlogged ▸ hcommitted.leaves⟩
  · intro fault htransient reply failed hfailed hhit
    obtain ⟨made, tried, raised, hcourse, hmakes⟩ :=
      @settles_write rt poison clock fault key htransient messages htwo hids haccepts 0
    obtain ⟨mid, reply', hrun, htried, hreply⟩ := hmakes st []
    obtain ⟨rfl, rfl⟩ := Prod.mk.inj (hfailed.symm.trans hrun)
    cases raised with
    | none =>
      obtain ⟨i, hmade, hfault⟩ := hhit
      rw [(hcourse.finished rfl).2 i (by omega) hmade] at hfault
      cases hfault
    | some e =>
      refine ⟨⟨e, hreply⟩, fun later => ?_⟩
      obtain ⟨log, hlogged, hclean⟩ := @runWrite_clean rt key messages poison later htwo hids haccepts
      obtain ⟨again, madeAgain, a, hagain, hsettledAgain, hcommittedAgain⟩ := hclean mid
      obtain ⟨once, madeOnce, b, honce, hsettledOnce, hcommittedOnce⟩ := hclean st
      have hdistinct : ((logged log).map (·.dataId)).Nodup := by
        rw [hlogged]
        exact hids.sublist (List.filter_sublist.map _)
      have hpart : logged tried <+: logged log := by
        rw [hlogged]
        exact (hcourse.broken e rfl).1
      have htexts : ∀ record ∈ logged log, ∃ hash, record.sha256 = .str hash := by
        intro record hrecord
        rw [hlogged] at hrecord
        obtain ⟨hmem, hhealthy⟩ := List.mem_filter.1 hrecord
        obtain ⟨hash, htext, -⟩ := (haccepts record hmem (by simpa using hhealthy)).text
        exact ⟨hash, htext⟩
      exact ⟨again, once, _, _, hagain, honce, hsettledAgain.trans hsettledOnce.symm,
        Committed.again hdistinct htexts hpart htried hcommittedAgain hcommittedOnce⟩

def twoReleases : List BatchRecord := [⟨"7", mintingDocument, .str "b"⟩, ⟨"8", vinylDocument, .str "b"⟩]

/-- PostgreSQL refuses the second of them. -/
def isPoison (message : BatchRecord) : Bool := message.dataId == "8"

/-- The first attempt finds the connection gone. -/
def connectionLost : Nat → Option Fault
  | 0 => some ⟨.error .transient, false⟩
  | _ => none

theorem poison_isolation_of_second :
    ∃ failed, runWrite concreteRuntime isPoison (fun _ => 5) connectionLost .releases twoReleases
        Store.empty = (.error (.error .transient), failed) ∧
      ∃ again once lastAgain lastOnce,
        runWrite concreteRuntime isPoison (fun _ => 6) noFault .releases twoReleases failed.store =
          (.ok again, lastAgain) ∧
        runWrite concreteRuntime isPoison (fun _ => 6) noFault .releases twoReleases Store.empty =
          (.ok once, lastOnce) ∧
        again.map (·.settlement) = once.map (·.settlement) ∧ lastAgain.store = lastOnce.store := by
  have hcommits : ∀ batch, batch <:+: twoReleases → batch.any isPoison = false → ∀ now st,
      ∃ result st', (processBatch concreteRuntime now .releases batch).serial engine.alone st =
        .ok (result, st') := by
    intro batch hpart hhealthy now st
    rw [List.any_eq_false] at hhealthy
    have hadmits : ∀ m ∈ latest batch, Admits concreteRuntime .releases (st.hash .releases m.dataId) m := by
      intro m hm
      have hmem := mem_of_mem_latest hm
      have hnot := hhealthy m hmem
      rcases List.mem_pair.1 (hpart.subset hmem) with rfl | rfl
      · exact ⟨⟨rfl, fun _ => by decide +kernel⟩, fun _ => by decide +kernel⟩
      · simp [isPoison] at hnot
    obtain ⟨result, st', hserial, -⟩ := @processBatch_leaves concreteRuntime .releases st batch now hadmits
    exact ⟨result, st', hserial⟩
  have htransient : Transient connectionLost := by
    intro n f hf
    cases n with
    | zero =>
      obtain rfl := Option.some.inj hf
      simp
    | succ n => cases hf
  have hexact := (poison_isolation_is_exact concreteRuntime .releases twoReleases isPoison (fun _ => 5)
    Store.empty (by decide) (by decide) hcommits).2 connectionLost htransient _ _ rfl
    ⟨0, by decide +kernel, rfl⟩
  exact ⟨_, rfl, hexact.2 _⟩

end Tableinator.Batch
