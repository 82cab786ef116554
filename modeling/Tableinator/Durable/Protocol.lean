import Tableinator.Durable.Frame

/-! # The refresh protocol

Any number of workers and producers over one set of durable tables.  A state
holds the committed tables and derived relations, and for every claim that is
still alive the worker that drew it: `run_worker_once` as a small machine that
waits for the advisory lock, refreshes its draft of the relations, and commits or
fails.  Every labelled step is one transaction or one local check, so a worker may
be overtaken between any two of them. -/

namespace Tableinator.Durable

open Relational

variable {R : Type}

/-- Where a worker stands in `run_worker_once`.  A draft is what its open
    transaction would publish. -/
inductive Phase (R : Type) where
  | claimed
  | waiting
  | refreshing (draft : R)
  | finishing (draft : R)
  | failed (error : String)

structure Worker (R : Type) where
  job : ClaimedJob
  lost : Bool
  phase : Phase R

structure Cluster (R : Type) where
  now : Time
  db : RefreshDb
  relations : R
  issued : List Token
  workers : Token → Option (Worker R)
  /-- The holder of the transaction-level advisory lock. -/
  lock : Option Token
  /-- The passes that committed, oldest first. -/
  commits : List ClaimedJob

inductive Action (R : Type) where
  | tick (seconds : Time)
  | signal (versionValue : String) (dataType : DataType)
  | reconcile
  | veto (version : String) (dataType : DataType)
  | claim (owner : String) (token : Token) (locked : String → Bool)
  | renew (token : Token) (reached : Bool)
  | start (token : Token)
  | acquire (token : Token)
  | refresh (token : Token) (draft : R)
  | finish (token : Token)
  | commit (token : Token)
  | fail (token : Token) (error : String)
  | settle (token : Token)
  | crash (token : Token)

namespace Cluster

-- `uuid4` returns no token that was drawn before.
def fresh (s : Cluster R) (token : Token) : Bool :=
  !s.issued.contains token && s.db.job.rows.all fun row => row.2.leaseToken != some token

def setWorker (s : Cluster R) (token : Token) (worker : Option (Worker R)) : Cluster R :=
  { s with workers := Function.update s.workers token worker }

-- A transaction that ends releases the advisory lock it may hold.
def unlock (s : Cluster R) (token : Token) : Cluster R :=
  if s.lock = some token then { s with lock := none } else s

-- The pass rolls back: its draft is gone.
def failWorker (s : Cluster R) (token : Token) (worker : Worker R) (error : String) : Cluster R :=
  (s.setWorker token (some { worker with phase := .failed error })).unlock token

-- The text `run_worker_once` records for a `SupersededJob`.
def fencedError : String := "lease_lost_or_superseded"

-- A transaction that raises leaves the tables as they were.
def transact (s : Cluster R) : Except DurableError RefreshDb → Cluster R
  | .ok db => { s with db := db }
  | .error _ => s

def claimStep (s : Cluster R) (owner : String) (token : Token) (locked : String → Bool) :
    Cluster R :=
  let (job, db) := claimDueJob s.now owner token locked s.db
  let s := { s with db := db, issued := token :: s.issued }
  match job with
  | none => s
  | some job => s.setWorker token (some ⟨job, false, .claimed⟩)

def renewStep (s : Cluster R) (token : Token) (worker : Worker R) (reached : Bool) : Cluster R :=
  if reached then
    let (held, db) := heartbeat s.now worker.job s.db
    { s with db := db }.setWorker token (some { worker with lost := !held })
  else s.setWorker token (some { worker with lost := true })

/-- `_before_refresh` once the advisory lock is free. -/
def acquireStep (s : Cluster R) (token : Token) (worker : Worker R) : Cluster R :=
  match beforeRefresh s.now worker.job s.db with
  | .error _ => s.failWorker token worker fencedError
  | .ok _ =>
    { s with lock := some token }.setWorker token
      (some { worker with phase := .refreshing s.relations })

/-- `_before_commit` and the commit of the pass. -/
def commitStep (s : Cluster R) (token : Token) (worker : Worker R) (draft : R) : Cluster R :=
  match beforeCommit s.now worker.job s.db with
  | .error _ => s.failWorker token worker fencedError
  | .ok db =>
    ({ s with db := db, relations := draft, commits := s.commits ++ [worker.job] }.setWorker token
      none).unlock token

/-- One step of the protocol, or `none` when the action is not enabled. -/
def step (required : Finset DataType) (s : Cluster R) : Action R → Option (Cluster R)
  | .tick seconds => some { s with now := s.now + seconds }
  | .signal versionValue dataType =>
    some (s.transact ((recordDurableSignal s.now versionValue dataType required s.db).map Prod.snd))
  | .reconcile => some (s.transact (reconcileLegacyLatches s.now required s.db))
  | .veto version dataType => some { s with db := recordPurgeVeto s.now version dataType s.db }
  | .claim owner token locked => if s.fresh token then some (s.claimStep owner token locked) else none
  | .renew token reached =>
    match s.workers token with
    -- The heartbeat task ends once it lost the lease.
    | some worker => if worker.lost then none else some (s.renewStep token worker reached)
    | none => none
  | .start token =>
    match s.workers token with
    | some ⟨job, true, .claimed⟩ => some (s.failWorker token ⟨job, true, .claimed⟩ fencedError)
    | some ⟨job, false, .claimed⟩ => some (s.setWorker token (some ⟨job, false, .waiting⟩))
    | _ => none
  | .acquire token =>
    match s.workers token with
    | some ⟨job, lost, .waiting⟩ =>
      if s.lock.isSome then none else some (s.acquireStep token ⟨job, lost, .waiting⟩)
    | _ => none
  | .refresh token draft =>
    match s.workers token with
    | some ⟨job, lost, .refreshing _⟩ => some (s.setWorker token (some ⟨job, lost, .refreshing draft⟩))
    | _ => none
  | .finish token =>
    match s.workers token with
    | some ⟨job, true, .refreshing draft⟩ =>
      some (s.failWorker token ⟨job, true, .refreshing draft⟩ fencedError)
    | some ⟨job, false, .refreshing draft⟩ =>
      some (s.setWorker token (some ⟨job, false, .finishing draft⟩))
    | _ => none
  | .commit token =>
    match s.workers token with
    | some ⟨job, lost, .finishing draft⟩ => some (s.commitStep token ⟨job, lost, .finishing draft⟩ draft)
    | _ => none
  | .fail token error =>
    match s.workers token with
    | some worker => some (s.failWorker token worker error)
    | none => none
  | .settle token =>
    match s.workers token with
    | some ⟨job, _, .failed error⟩ =>
      some ({ s with db := markAfterFailure s.now job error s.db }.setWorker token none)
    | _ => none
  | .crash token => some ((s.setWorker token none).unlock token)

/-- Some action takes `s` to `s'`. -/
def Steps (required : Finset DataType) (s s' : Cluster R) : Prop := ∃ a, s.step required a = some s'

/-- The states any interleaving reaches. -/
abbrev Run (required : Finset DataType) : Cluster R → Cluster R → Prop :=
  Relation.ReflTransGen (Steps required)

/-- A schedule of actions, run in order. -/
def runActions (required : Finset DataType) : Cluster R → List (Action R) → Option (Cluster R)
  | s, [] => some s
  | s, a :: as => (s.step required a).bind fun s => s.runActions required as

/-- The state of a deployment before its first worker starts. -/
def boot (db : RefreshDb) (relations : R) : Cluster R where
  now := 0
  db := db
  relations := relations
  issued := []
  workers := fun _ => none
  lock := none
  commits := []

/-- No worker is alive yet; the tables may hold anything. -/
structure Initial (s : Cluster R) : Prop where
  workers : ∀ token, s.workers token = none
  lock : s.lock = none
  commits : s.commits = []

theorem boot_initial (db : RefreshDb) (relations : R) : (boot db relations).Initial :=
  ⟨fun _ => rfl, rfl, rfl⟩

theorem run_of_runActions {required : Finset DataType} {as : List (Action R)} {s s' : Cluster R}
    (h : s.runActions required as = some s') : Run required s s' := by
  induction as generalizing s with
  | nil =>
    cases h
    exact .refl
  | cons a as ih =>
    obtain ⟨mid, hstep, hrest⟩ := Option.bind_eq_some_iff.1 h
    exact .head ⟨a, hstep⟩ (ih hrest)

end Cluster

/-! ## What a step can do -/

namespace Cluster

variable {required : Finset DataType} {s s' : Cluster R} {token : Token}

@[simp] theorem setWorker_db (s : Cluster R) (token : Token) (worker : Option (Worker R)) :
    (s.setWorker token worker).db = s.db := rfl

@[simp] theorem setWorker_relations (s : Cluster R) (token : Token) (worker : Option (Worker R)) :
    (s.setWorker token worker).relations = s.relations := rfl

@[simp] theorem setWorker_commits (s : Cluster R) (token : Token) (worker : Option (Worker R)) :
    (s.setWorker token worker).commits = s.commits := rfl

@[simp] theorem setWorker_now (s : Cluster R) (token : Token) (worker : Option (Worker R)) :
    (s.setWorker token worker).now = s.now := rfl

@[simp] theorem setWorker_issued (s : Cluster R) (token : Token) (worker : Option (Worker R)) :
    (s.setWorker token worker).issued = s.issued := rfl

theorem setWorker_workers (s : Cluster R) (token : Token) (worker : Option (Worker R)) (t : Token) :
    (s.setWorker token worker).workers t = if t = token then worker else s.workers t := by
  simp [setWorker, Function.update_apply]

theorem unlock_eq (s : Cluster R) (token : Token) :
    ∃ lock, s.unlock token = { s with lock := lock } := by
  unfold unlock
  split
  · exact ⟨none, rfl⟩
  · exact ⟨s.lock, rfl⟩

/-- Workers of the next state were there before with the same claim. -/
def Inherits (s s' : Cluster R) : Prop :=
  ∀ token worker', s'.workers token = some worker' →
    ∃ worker, s.workers token = some worker ∧ worker.job = worker'.job

/-- A step that commits no pass leaves the published state alone; its tables change
    by one transaction. -/
structure Quiet (s s' : Cluster R) (grant : Option Token) : Prop where
  writes : Writes s.now grant s.db s'.db
  now : s.now ≤ s'.now
  relations : s'.relations = s.relations
  commits : s'.commits = s.commits

theorem Inherits.refl (s : Cluster R) : Inherits s s := fun _ worker h => ⟨worker, h, rfl⟩

theorem inherits_setWorker {worker : Worker R} {next : Option (Worker R)}
    (hworker : s.workers token = some worker)
    (hnext : ∀ worker', next = some worker' → worker'.job = worker.job) :
    Inherits s (s.setWorker token next) := by
  intro t worker' hworker'
  rw [setWorker_workers] at hworker'
  split at hworker'
  · next ht =>
    subst ht
    exact ⟨worker, hworker, (hnext worker' hworker').symm⟩
  · exact ⟨worker', hworker', rfl⟩

theorem inherits_unlock (h : Inherits s s') (token : Token) : Inherits s (s'.unlock token) := by
  obtain ⟨lock, hlock⟩ := unlock_eq s' token
  rw [hlock]
  exact h

theorem quiet_unlock {grant : Option Token} (h : Quiet s s' grant) (token : Token) :
    Quiet s (s'.unlock token) grant := by
  obtain ⟨lock, hlock⟩ := unlock_eq s' token
  rw [hlock]
  exact ⟨h.writes, h.now, h.relations, h.commits⟩

@[simp] theorem unlock_issued (s : Cluster R) (token : Token) :
    (s.unlock token).issued = s.issued := by
  obtain ⟨lock, hlock⟩ := unlock_eq s token
  rw [hlock]

end Cluster

/-! ## Claims -/

/-- What stays true of a claim while its worker lives: the cursor has reached its
    generation, its job row is still there, and its token is nowhere but in a lease of
    that row with the claim's epoch. -/
structure Claimed (db : RefreshDb) (issued : List Token) (token : Token) (job : ClaimedJob) :
    Prop where
  token_eq : job.token = token
  issued : token ∈ issued
  reached : job.generation ≤ db.generation
  row : ∃ row, db.job.lookup job.version = some row ∧ row.generation = job.generation
  lease : ∀ v row, db.job.lookup v = some row → row.leaseToken = some token →
    v = job.version ∧ row.state = .leased ∧ row.leaseEpoch = job.epoch

theorem Claimed.of_keeps {now : Time} {grant : Option Token} {db db' : RefreshDb}
    {issued issued' : List Token} {token : Token} {job : ClaimedJob}
    (h : Claimed db issued token job) (hkeeps : Keeps now grant db db') (hgrant : grant ≠ some token)
    (hissued : issued ⊆ issued') : Claimed db' issued' token job where
  token_eq := h.token_eq
  issued := hissued h.issued
  reached := h.reached.trans hkeeps.cursor.generation_le
  row := by
    obtain ⟨row, hrow, hgeneration⟩ := h.row
    obtain ⟨row', hrow', hgeneration'⟩ := hkeeps.job _ row hrow
    exact ⟨row', hrow', hgeneration'.trans hgeneration⟩
  lease := by
    intro v row' hrow' htoken
    obtain ⟨row, hrow, htoken, hstate, hepoch, _⟩ := hkeeps.lease v row' token hrow' htoken hgrant
    obtain ⟨hv, hleased, hsame⟩ := h.lease v row hrow htoken
    exact ⟨hv, hstate.trans hleased, hepoch.trans hsame⟩

theorem lockCursor_generation (now : Time) (db : RefreshDb) :
    (lockCursor now db).2.generation = (lockCursor now db).1.generation := by
  unfold RefreshDb.generation
  rw [lockCursor_cursor]
  rfl

theorem lockCursor_job (now : Time) (db : RefreshDb) : (lockCursor now db).2.job = db.job := by
  unfold lockCursor
  split
  · rfl
  · rfl

/-- The row a successful claim leased. -/
theorem claimDueJob_eq_some {now : Time} {owner : String} {token : Token}
    {locked : String → Bool} {db db' : RefreshDb} {job : ClaimedJob}
    (h : claimDueJob now owner token locked db = (some job, db')) :
    ∃ row, db.job.lookup job.version = some row ∧ row.generation = job.generation ∧
      job.token = token ∧ job.epoch = row.leaseEpoch + 1 ∧ db'.generation = job.generation ∧
      db'.job = db.job.insert job.version (row.lease now owner token) := by
  have hgeneration := lockCursor_generation now db
  have hjob := lockCursor_job now db
  unfold claimDueJob at h
  split at h
  next cursor db₁ hlock =>
  rw [hlock] at hgeneration hjob
  split at h
  · cases h
  · split at h
    · cases h
    · next version row hdue =>
      obtain ⟨hrow, _⟩ := dueJob_mem hdue
      split at h
      · cases h
      · next hcurrent =>
        split at h
        · cases h
        · cases h
          rw [hjob] at hrow
          refine ⟨row, hrow, rfl, rfl, rfl, ?_, ?_⟩
          · exact hgeneration.trans (not_not.1 hcurrent).symm
          · rw [← hjob]

namespace Cluster

variable {required : Finset DataType} {s s' : Cluster R} {token : Token}

theorem fresh_iff : s.fresh token = true ↔
    token ∉ s.issued ∧ ∀ v row, s.db.job.lookup v = some row → row.leaseToken ≠ some token := by
  unfold fresh
  rw [Bool.and_eq_true, List.all_eq_true]
  simp only [Bool.not_eq_true', List.contains_eq_mem, decide_eq_false_iff_not, bne_iff_ne, ne_eq,
    Prod.forall, Table.mem_rows]

/-- The invariant of the workers that are alive, and of those that committed. -/
structure Claims (s : Cluster R) : Prop where
  claimed : ∀ token worker, s.workers token = some worker →
    Claimed s.db s.issued token worker.job
  spent : ∀ job ∈ s.commits, job.token ∈ s.issued ∧ s.workers job.token = none

theorem Initial.claims (h : s.Initial) : s.Claims where
  claimed := by
    intro token worker hworker
    rw [h.workers] at hworker
    cases hworker
  spent := by
    intro job hjob
    rw [h.commits] at hjob
    cases hjob

/-! ## Steps by kind -/

/-- How a step that commits no pass touches the latch. -/
inductive Latching (required : Finset DataType) (now : Time) (db db' : RefreshDb) : Prop where
  | still : db'.latch = db.latch → Latching required now db db'
  | veto (version : String) (dataType : DataType) : db' = recordPurgeVeto now version dataType db →
      Latching required now db db'
  | reconcile : reconcileLegacyLatches now required db = .ok db' → Latching required now db db'
  | signal {versionValue : String} {dataType : DataType} {result : DurableSignal} :
      recordDurableSignal now versionValue dataType required db = .ok (result, db') →
      Latching required now db db'

/-- Every step is quiet, or draws a claim, or commits a pass. -/
inductive StepKind (required : Finset DataType) (s s' : Cluster R) : Prop where
  | quiet : Quiet s s' none → Inherits s s' → s'.issued = s.issued →
      Latching required s.now s.db s'.db → StepKind required s s'
  | claim (owner : String) (token : Token) (locked : String → Bool) : s.fresh token = true →
      s' = s.claimStep owner token locked → StepKind required s s'
  | commit {token : Token} {worker : Worker R} {draft : R} : s.workers token = some worker →
      worker.phase = .finishing draft → Completion s.now worker.job s.db s'.db →
      s'.now = s.now → s'.relations = draft → s'.commits = s.commits ++ [worker.job] →
      s'.workers = Function.update s.workers token none → s'.issued = s.issued → StepKind required s s'

theorem quiet_of_writes (h : Writes s.now none s.db s'.db) (hnow : s'.now = s.now)
    (hrelations : s'.relations = s.relations) (hcommits : s'.commits = s.commits) :
    Quiet s s' none :=
  ⟨h, hnow.ge, hrelations, hcommits⟩

theorem failWorker_kind {worker : Worker R} (hworker : s.workers token = some worker)
    (error : String) : StepKind required s (s.failWorker token worker error) := by
  have hquiet : Quiet s (s.setWorker token (some { worker with phase := .failed error })) none :=
    quiet_of_writes .refl rfl rfl rfl
  refine .quiet (quiet_unlock hquiet token) ?_ (unlock_issued _ _) ?_
  · refine inherits_unlock (inherits_setWorker hworker ?_) token
    intro worker' hworker'
    cases hworker'
    rfl
  · obtain ⟨lock, hlock⟩ := unlock_eq (s.setWorker token (some { worker with phase := .failed error }))
      token
    rw [failWorker, hlock]
    exact .still rfl

theorem setWorker_kind {worker : Worker R} {next : Worker R}
    (hworker : s.workers token = some worker) (hnext : next.job = worker.job) :
    StepKind required s (s.setWorker token (some next)) := by
  refine .quiet (quiet_of_writes .refl rfl rfl rfl) (inherits_setWorker hworker ?_) rfl (.still rfl)
  intro worker' hworker'
  cases hworker'
  exact hnext

theorem writes_kind {db : RefreshDb} (h : Writes s.now none s.db db)
    (hlatching : Latching required s.now s.db db) : StepKind required s { s with db := db } :=
  .quiet (quiet_of_writes h rfl rfl rfl) (.refl s) rfl hlatching

theorem transact_kind {result : Except DurableError RefreshDb}
    (h : ∀ db, result = .ok db → Writes s.now none s.db db)
    (hlatching : ∀ db, result = .ok db → Latching required s.now s.db db) :
    StepKind required s (s.transact result) := by
  cases result with
  | ok db => exact writes_kind (h db rfl) (hlatching db rfl)
  | error e => exact writes_kind .refl (.still rfl)

theorem heartbeat_latch (now : Time) (job : ClaimedJob) (db : RefreshDb) :
    (heartbeat now job db).2.latch = db.latch := by
  unfold heartbeat
  split
  · rfl
  · rfl

theorem renewStep_kind {worker : Worker R} (hworker : s.workers token = some worker)
    (reached : Bool) : StepKind required s (s.renewStep token worker reached) := by
  unfold renewStep
  split
  · refine .quiet (quiet_of_writes (heartbeat_writes _ _ _) rfl rfl rfl) ?_ rfl
      (.still (heartbeat_latch _ _ _))
    refine inherits_setWorker (s := { s with db := _ }) hworker ?_
    intro worker' hworker'
    cases hworker'
    rfl
  · exact setWorker_kind hworker rfl

theorem acquireStep_kind {worker : Worker R} (hworker : s.workers token = some worker) :
    StepKind required s (s.acquireStep token worker) := by
  unfold acquireStep
  split
  · exact failWorker_kind hworker _
  · refine .quiet (quiet_of_writes .refl rfl rfl rfl) ?_ rfl (.still rfl)
    refine inherits_setWorker (s := { s with lock := _ }) hworker ?_
    intro worker' hworker'
    cases hworker'
    rfl

theorem commitStep_kind {worker : Worker R} {draft : R} (hworker : s.workers token = some worker)
    (hphase : worker.phase = .finishing draft) : StepKind required s (s.commitStep token worker draft) := by
  unfold commitStep
  split
  · exact failWorker_kind hworker _
  · next db hcommit =>
    obtain ⟨lock, hlock⟩ := unlock_eq (setWorker
      { s with db := db, relations := draft, commits := s.commits ++ [worker.job] } token none) token
    rw [hlock]
    exact .commit hworker hphase (beforeCommit_completion hcommit) rfl rfl rfl rfl rfl

theorem settle_kind {worker : Worker R} (hclaims : s.Claims)
    (hworker : s.workers token = some worker) (error : String) :
    StepKind required s ({ s with db := markAfterFailure s.now worker.job error s.db }.setWorker token none) := by
  have hmatch : ∀ row, s.db.job.lookup worker.job.version = some row →
      row.generation = worker.job.generation := by
    intro row hrow
    obtain ⟨row', hrow', hgeneration⟩ := (hclaims.claimed token worker hworker).row
    rw [hrow] at hrow'
    cases hrow'
    exact hgeneration
  refine .quiet (quiet_of_writes (markAfterFailure_writes error hmatch) rfl rfl rfl) ?_ rfl (.still rfl)
  refine inherits_setWorker (s := { s with db := _ }) hworker ?_
  intro worker' hworker'
  cases hworker'

theorem crash_kind (s : Cluster R) (token : Token) :
    StepKind required s ((s.setWorker token none).unlock token) := by
  have hquiet : Quiet s (s.setWorker token none) none := quiet_of_writes .refl rfl rfl rfl
  refine .quiet (quiet_unlock hquiet token) ?_ (unlock_issued _ _) ?_
  · refine inherits_unlock ?_ token
    intro t worker' hworker'
    rw [setWorker_workers] at hworker'
    split at hworker'
    · cases hworker'
    · exact ⟨worker', hworker', rfl⟩
  · obtain ⟨lock, hlock⟩ := unlock_eq (s.setWorker token none) token
    rw [hlock]
    exact .still rfl

theorem step_kind {a : Action R} (hclaims : s.Claims) (h : s.step required a = some s') :
    StepKind required s s' := by
  cases a with
  | tick seconds =>
    cases h
    exact .quiet ⟨.refl, Nat.le_add_right _ _, rfl, rfl⟩ (.refl _) rfl (.still rfl)
  | signal versionValue dataType =>
    simp only [step, Option.some.injEq] at h
    subst h
    refine transact_kind ?_ ?_
    · intro db hdb
      obtain ⟨⟨result, db⟩, hsignal, rfl⟩ := map_eq_ok.1 hdb
      exact recordDurableSignal_writes hsignal
    · intro db hdb
      obtain ⟨⟨result, db⟩, hsignal, rfl⟩ := map_eq_ok.1 hdb
      exact .signal hsignal
  | reconcile =>
    simp only [step, Option.some.injEq] at h
    subst h
    refine transact_kind ?_ ?_
    · intro db hdb
      exact reconcileLegacyLatches_writes hdb
    · intro db hdb
      exact .reconcile hdb
  | veto version dataType =>
    cases h
    exact writes_kind (.single (.veto version dataType)) (.veto version dataType rfl)
  | claim owner token locked =>
    simp only [step] at h
    split at h
    · next hfresh =>
      cases h
      exact .claim owner token locked hfresh rfl
    · cases h
  | renew token reached =>
    simp only [step] at h
    split at h
    · next worker hworker =>
      split at h
      · cases h
      · cases h
        exact renewStep_kind hworker reached
    · cases h
  | start token =>
    simp only [step] at h
    split at h
    · next job hworker =>
      cases h
      exact failWorker_kind hworker _
    · next job hworker =>
      cases h
      exact setWorker_kind hworker rfl
    · cases h
  | acquire token =>
    simp only [step] at h
    split at h
    · next job lost hworker =>
      split at h
      · cases h
      · cases h
        exact acquireStep_kind hworker
    · cases h
  | refresh token draft =>
    simp only [step] at h
    split at h
    · next job lost old hworker =>
      cases h
      exact setWorker_kind hworker rfl
    · cases h
  | finish token =>
    simp only [step] at h
    split at h
    · next job draft hworker =>
      cases h
      exact failWorker_kind hworker _
    · next job draft hworker =>
      cases h
      exact setWorker_kind hworker rfl
    · cases h
  | commit token =>
    simp only [step] at h
    split at h
    · next job lost draft hworker =>
      cases h
      exact commitStep_kind hworker rfl
    · cases h
  | fail token error =>
    simp only [step] at h
    split at h
    · next worker hworker =>
      cases h
      exact failWorker_kind hworker _
    · cases h
  | settle token =>
    simp only [step] at h
    split at h
    · next job lost error hworker =>
      cases h
      exact settle_kind hclaims hworker error
    · cases h
  | crash token =>
    cases h
    exact crash_kind s token

/-! ## The transaction of a step -/

@[simp] theorem unlock_db (s : Cluster R) (token : Token) : (s.unlock token).db = s.db := by
  obtain ⟨lock, hlock⟩ := unlock_eq s token
  rw [hlock]

@[simp] theorem unlock_now (s : Cluster R) (token : Token) : (s.unlock token).now = s.now := by
  obtain ⟨lock, hlock⟩ := unlock_eq s token
  rw [hlock]

@[simp] theorem failWorker_db (s : Cluster R) (token : Token) (worker : Worker R) (error : String) :
    (s.failWorker token worker error).db = s.db := unlock_db _ _

@[simp] theorem failWorker_now (s : Cluster R) (token : Token) (worker : Worker R) (error : String) :
    (s.failWorker token worker error).now = s.now := unlock_now _ _

theorem claimStep_db (s : Cluster R) (owner : String) (token : Token) (locked : String → Bool) :
    (s.claimStep owner token locked).db = (claimDueJob s.now owner token locked s.db).2 := by
  unfold claimStep
  split
  next job db hclaim =>
  rw [hclaim]
  split
  · rfl
  · rfl

theorem claimStep_now (s : Cluster R) (owner : String) (token : Token) (locked : String → Bool) :
    (s.claimStep owner token locked).now = s.now := by
  unfold claimStep
  split
  split
  · rfl
  · rfl

/-- What the one transaction of a step leaves of the refresh tables, whether it commits or not. -/
inductive Transacts (required : Finset DataType) (s : Cluster R) : RefreshDb → Prop where
  | nothing : Transacts required s s.db
  | signal {versionValue : String} {dataType : DataType} {result : DurableSignal} {db : RefreshDb} :
      recordDurableSignal s.now versionValue dataType required s.db = .ok (result, db) →
      Transacts required s db
  | reconcile {db : RefreshDb} : reconcileLegacyLatches s.now required s.db = .ok db →
      Transacts required s db
  | veto (version : String) (dataType : DataType) :
      Transacts required s (recordPurgeVeto s.now version dataType s.db)
  | claim (owner : String) (token : Token) (locked : String → Bool) :
      Transacts required s (claimDueJob s.now owner token locked s.db).2
  | renew (job : ClaimedJob) : Transacts required s (heartbeat s.now job s.db).2
  | complete {job : ClaimedJob} {db : RefreshDb} : beforeCommit s.now job s.db = .ok db →
      Transacts required s db
  | settle (job : ClaimedJob) (error : String) :
      Transacts required s (markAfterFailure s.now job error s.db)

theorem transact_transacts {result : Except DurableError RefreshDb}
    (h : ∀ db, result = .ok db → Transacts required s db) :
    Transacts required s (s.transact result).db := by
  cases result with
  | ok db => exact h db rfl
  | error e => exact .nothing

theorem transact_now (s : Cluster R) (result : Except DurableError RefreshDb) :
    (s.transact result).now = s.now := by
  cases result with
  | ok db => rfl
  | error e => rfl

/-- Every step is at most one transaction, at its own time. -/
theorem step_transacts {a : Action R} (h : s.step required a = some s') :
    s.now ≤ s'.now ∧ Transacts required s s'.db := by
  cases a with
  | tick seconds =>
    cases h
    exact ⟨Nat.le_add_right _ _, .nothing⟩
  | signal versionValue dataType =>
    cases h
    refine ⟨(transact_now _ _).ge, transact_transacts fun db hdb => ?_⟩
    obtain ⟨⟨result, db⟩, hsignal, rfl⟩ := map_eq_ok.1 hdb
    exact .signal hsignal
  | reconcile =>
    cases h
    exact ⟨(transact_now _ _).ge, transact_transacts fun db hdb => .reconcile hdb⟩
  | veto version dataType =>
    cases h
    exact ⟨le_rfl, .veto version dataType⟩
  | claim owner token locked =>
    simp only [step] at h
    split at h
    · cases h
      exact ⟨(claimStep_now _ _ _ _).ge, claimStep_db s owner token locked ▸ .claim owner token locked⟩
    · cases h
  | renew token reached =>
    simp only [step] at h
    split at h
    · split at h
      · cases h
      · cases h
        unfold renewStep
        -- a heartbeat that did not reach the database marks its worker only
        split
        · exact ⟨le_rfl, .renew _⟩
        · exact ⟨le_rfl, .nothing⟩
    · cases h
  | start token =>
    simp only [step] at h
    split at h
    · cases h
      exact ⟨(failWorker_now _ _ _ _).ge, failWorker_db s token _ _ ▸ .nothing⟩
    · cases h
      exact ⟨le_rfl, .nothing⟩
    · cases h
  | acquire token =>
    simp only [step] at h
    split at h
    · split at h
      · cases h
      · cases h
        unfold acquireStep
        split
        · exact ⟨(failWorker_now _ _ _ _).ge, failWorker_db s token _ _ ▸ .nothing⟩
        · exact ⟨le_rfl, .nothing⟩
    · cases h
  | refresh token draft =>
    simp only [step] at h
    split at h
    · cases h
      exact ⟨le_rfl, .nothing⟩
    · cases h
  | finish token =>
    simp only [step] at h
    split at h
    · cases h
      exact ⟨(failWorker_now _ _ _ _).ge, failWorker_db s token _ _ ▸ .nothing⟩
    · cases h
      exact ⟨le_rfl, .nothing⟩
    · cases h
  | commit token =>
    simp only [step] at h
    split at h
    · cases h
      unfold commitStep
      split
      · exact ⟨(failWorker_now _ _ _ _).ge, failWorker_db s token _ _ ▸ .nothing⟩
      · next db hcommit =>
        rw [unlock_now, unlock_db]
        exact ⟨le_rfl, .complete hcommit⟩
    · cases h
  | fail token error =>
    simp only [step] at h
    split at h
    · cases h
      exact ⟨(failWorker_now _ _ _ _).ge, failWorker_db s token _ _ ▸ .nothing⟩
    · cases h
  | settle token =>
    simp only [step] at h
    split at h
    · cases h
      exact ⟨le_rfl, .settle _ _⟩
    · cases h
  | crash token =>
    cases h
    rw [unlock_now, unlock_db]
    exact ⟨le_rfl, .nothing⟩

end Cluster

end Tableinator.Durable
