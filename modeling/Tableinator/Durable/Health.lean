import Tableinator.Durable.Loader

/-! # Refresh health

`read_refresh_health`: what an operator is told about the refresh that is owed.  The
report is computed from the cursor and the job relation alone.  Owed work is never
reported as done; finished work is reported as done exactly when a worker finished
it, since a latch that the inline protocol stamped has no completed job. -/

namespace Tableinator.Durable

open Relational

def staleSeconds : Time := 300

def staleSignalsSeconds : Time := 86400

inductive HealthStatus where
  | enabled
  | degraded
  deriving DecidableEq, Repr

/-- The `phase` of a report: the state of the newest live job, or the wait for one. -/
inductive HealthPhase where
  | job (state : JobState)
  | waitingForSignals
  deriving DecidableEq, Repr

structure RefreshHealth where
  status : HealthStatus
  currentGeneration : Nat
  currentVersion : Option String
  newestCompletedVersion : Option String
  activeVersion : Option String
  phase : Option HealthPhase
  durationSeconds : Option Time
  pendingAgeSeconds : Option Time
  attemptCount : Nat
  retryDue : Option Time
  leaseExpiry : Option Time
  lastSanitizedFailure : Option String
  supersededCount : Nat
  deriving DecidableEq

/-- `SELECT … FROM job ORDER BY generation DESC`. -/
def jobsNewestFirst (db : RefreshDb) : List (String × JobRow) :=
  db.job.rows.insertionSort fun a b => b.2.generation ≤ a.2.generation

def newestCompleted (db : RefreshDb) : Option String :=
  ((jobsNewestFirst db).find? fun row => row.2.state == .completed).map Prod.fst

/-- `active`: the newest job in a live state. -/
def activeJob (db : RefreshDb) : Option (String × JobRow) :=
  (jobsNewestFirst db).find? fun row => row.2.state.live

def waiting (db : RefreshDb) : Bool :=
  (activeJob db).isNone && db.version.isSome && newestCompleted db != db.version

/-- `active_state`. -/
def activePhase (db : RefreshDb) : Option HealthPhase :=
  match activeJob db with
  | some active => some (.job active.2.state)
  | none => if waiting db then some .waitingForSignals else none

-- `max(0.0, …)` is the truncated subtraction of timestamps.
def pendingAge (now : Time) (db : RefreshDb) : Option Time :=
  match activeJob db with
  | some active => some (now - active.2.createdAt)
  | none => if waiting db then db.cursor.map fun cursor => now - cursor.updatedAt else none

/-- The latches a newer extraction had replaced before the cutover. -/
def legacySuperseded (db : RefreshDb) : Nat :=
  match db.version with
  | none => 0
  | some current =>
    (db.latch.rows.filter fun row =>
      row.2.generation.isNone && row.2.refreshedAt.isNone && row.1 < current).length

def degraded (now : Time) (db : RefreshDb) : Bool :=
  match activePhase db with
  | some (.job .retry) => true
  | some (.job .pending) => (pendingAge now db).any (staleSeconds < ·)
  | some .waitingForSignals => (pendingAge now db).any (staleSignalsSeconds < ·)
  | some (.job .leased) => ((activeJob db).bind fun active => active.2.leaseExpiresAt).any (· ≤ now)
  | _ => false

/-- `read_refresh_health`, with its three statements reading one state of the tables. -/
def readRefreshHealth (now : Time) (db : RefreshDb) : RefreshHealth where
  status := if degraded now db then .degraded else .enabled
  currentGeneration := db.generation
  currentVersion := db.version
  newestCompletedVersion := newestCompleted db
  activeVersion := (activeJob db).map Prod.fst
  phase := activePhase db
  durationSeconds := (activeJob db).bind fun active => active.2.startedAt.map (now - ·)
  pendingAgeSeconds := pendingAge now db
  attemptCount := ((activeJob db).map fun active => active.2.attemptCount).getD 0
  retryDue := (activeJob db).bind fun active => active.2.nextAttemptAt
  leaseExpiry := (activeJob db).bind fun active => active.2.leaseExpiresAt
  lastSanitizedFailure := (activeJob db).bind fun active => active.2.lastError
  supersededCount := legacySuperseded db +
    ((jobsNewestFirst db).filter fun row => row.2.state == .superseded).length

variable {db : RefreshDb} {v : String}

/-! ## The rows a report reads -/

theorem mem_jobsNewestFirst {row : String × JobRow} :
    row ∈ jobsNewestFirst db ↔ db.job.lookup row.1 = some row.2 := by
  unfold jobsNewestFirst
  rw [List.mem_insertionSort, Table.mem_rows]

theorem activeJob_eq_some {row : String × JobRow} (h : activeJob db = some row) :
    db.job.lookup row.1 = some row.2 ∧ row.2.state.live = true := by
  have hlive := List.find?_some (p := fun row : String × JobRow => row.2.state.live) h
  exact ⟨mem_jobsNewestFirst.1 (List.mem_of_find?_eq_some h), hlive⟩

theorem newestCompleted_eq_some (h : newestCompleted db = some v) :
    ∃ job, db.job.lookup v = some job ∧ job.state = .completed := by
  obtain ⟨row, hrow, rfl⟩ := Option.map_eq_some_iff.1 h
  have hstate := List.find?_some hrow
  exact ⟨row.2, mem_jobsNewestFirst.1 (List.mem_of_find?_eq_some hrow), by simpa using hstate⟩

/-- The first match of a sorted list is no later than any other match. -/
theorem find?_le_of_pairwise {α : Type} {r : α → α → Prop} {p : α → Bool} {xs : List α} {x y : α}
    (hsorted : xs.Pairwise r) (hx : xs.find? p = some x) (hy : y ∈ xs) (hp : p y = true) :
    x = y ∨ r x y := by
  obtain ⟨_, before, rest, rfl, hbefore⟩ := List.find?_eq_some_iff_append.1 hx
  rcases List.mem_append.1 hy with hmem | hmem
  · have hnot := hbefore y hmem
    rw [hp] at hnot
    cases hnot
  · rcases List.mem_cons.1 hmem with rfl | hmem
    · exact .inl rfl
    · exact .inr ((List.pairwise_cons.1 (List.pairwise_append.1 hsorted).2.1).1 y hmem)

/-- A live job is the one of the cursor's version. -/
theorem Ordered.activeJob_version (h : Ordered db) {row : String × JobRow}
    (hactive : activeJob db = some row) : db.version = some row.1 := by
  obtain ⟨hrow, hlive⟩ := activeJob_eq_some hactive
  exact h.live_current hrow hlive

/-- A job of the cursor's version that is done has stamped its latch. -/
theorem Ordered.refreshed_of_completed (h : Ordered db) {job : JobRow}
    (hversion : db.version = some v) (hjob : db.job.lookup v = some job)
    (hcompleted : job.state = .completed) : (db.refreshed v).isSome := by
  have hdead : job.state.live = false := by rw [hcompleted]; rfl
  rcases h.jobDone v job hjob hdead with hlt | ⟨_, hstamped⟩
  · -- a job below the cursor is not of its version
    have hsame := (h.current v _ (h.jobLatch v job hjob)).2 hversion
    exact absurd hsame hlt.ne
  · exact hstamped

/-- A completed job of the cursor's version is the newest one. -/
theorem Ordered.newestCompleted_of_current (h : Ordered db) {job : JobRow}
    (hversion : db.version = some v) (hjob : db.job.lookup v = some job)
    (hcompleted : job.state = .completed) : newestCompleted db = some v := by
  have hmem : (v, job) ∈ jobsNewestFirst db := mem_jobsNewestFirst.2 hjob
  have hgeneration := (h.current v _ (h.jobLatch v job hjob)).2 hversion
  unfold newestCompleted
  cases hfind : (jobsNewestFirst db).find? fun row => row.2.state == .completed with
  | none =>
    have hnot := List.find?_eq_none.1 hfind (v, job) hmem
    simp [hcompleted] at hnot
  | some row =>
    have hrow := mem_jobsNewestFirst.1 (List.mem_of_find?_eq_some hfind)
    have hsorted : (jobsNewestFirst db).Pairwise fun a b => b.2.generation ≤ a.2.generation :=
      haveI : Std.Total fun a b : String × JobRow => b.2.generation ≤ a.2.generation :=
        ⟨fun a b => Nat.le_total _ _⟩
      haveI : IsTrans _ fun a b : String × JobRow => b.2.generation ≤ a.2.generation :=
        ⟨fun a b c hab hbc => hbc.trans hab⟩
      List.pairwise_insertionSort _ _
    rcases find?_le_of_pairwise hsorted hfind hmem (by simp [hcompleted]) with rfl | hle
    · rfl
    · -- No job is beyond the cursor, so the one found first stands at it too.
      have hlatch := h.jobLatch _ _ hrow
      have hreached := (h.reached _ _ hlatch).1
      have hsame := (h.current _ _ hlatch).1 (le_antisymm hreached (hgeneration ▸ hle))
      exact hsame.symm.trans hversion

/-! ## Owed work is reported -/

theorem Ordered.newestCompleted_ne (h : Ordered db) (hversion : db.version = some v)
    (howed : db.refreshed v = none) : newestCompleted db ≠ some v := by
  intro hnewest
  obtain ⟨job, hjob, hcompleted⟩ := newestCompleted_eq_some hnewest
  have hstamped := h.refreshed_of_completed hversion hjob hcompleted
  rw [howed] at hstamped
  cases hstamped

theorem waiting_of_newestCompleted_ne (hversion : db.version = some v)
    (hidle : activeJob db = none) (hnewest : newestCompleted db ≠ some v) : waiting db = true := by
  unfold waiting
  rw [hidle, hversion]
  simpa using hnewest

theorem activeJob_eq_none (h : activeJob db = none) {job : JobRow}
    (hjob : db.job.lookup v = some job) : job.state.live = false := by
  have hnot := List.find?_eq_none.1 h (v, job) (mem_jobsNewestFirst.2 hjob)
  simpa using hnot

theorem JobState.live_eq_true {state : JobState} :
    state.live = true ↔ state = .pending ∨ state = .leased ∨ state = .retry := by
  cases state <;> simp [JobState.live]

/-- The phase of a state in which no completed job names the cursor's version: the state of its
    job while that is live, else the wait for its signals. -/
theorem Ordered.activePhase_of_newestCompleted_ne (h : Ordered db) (hversion : db.version = some v)
    (hnewest : newestCompleted db ≠ some v) :
    (∃ job, db.job.lookup v = some job ∧
        (job.state = .pending ∨ job.state = .leased ∨ job.state = .retry) ∧
        activePhase db = some (.job job.state)) ∨
      (∀ job, db.job.lookup v = some job → job.state.live = false) ∧
        activePhase db = some .waitingForSignals := by
  unfold activePhase
  cases hactive : activeJob db with
  | none =>
    refine .inr ⟨fun job hjob => activeJob_eq_none hactive hjob, ?_⟩
    simp [waiting_of_newestCompleted_ne hversion hactive hnewest]
  | some row =>
    obtain ⟨hrow, hlive⟩ := activeJob_eq_some hactive
    obtain rfl : row.1 = v := Option.some.inj ((h.activeJob_version hactive).symm.trans hversion)
    exact .inl ⟨row.2, hrow, JobState.live_eq_true.1 hlive, rfl⟩

namespace Loader

variable {R : Type} {l l' : Loader R}

/-- Health never reports owed work as done: it names the version of the cursor, the phase its job
    is in, and an older version at most as completed. -/
theorem health_reports_owed_work (hstart : l.Starts) (hrun : Run l l') {cursor : Cursor}
    (hcursor : l'.cluster.db.cursor = some cursor) (hversion : cursor.version = some v)
    (howed : ∀ row, l'.cluster.db.latch.lookup v = some row → row.refreshedAt = none)
    (now : Time) :
    (readRefreshHealth now l'.cluster.db).currentVersion = some v ∧
      (readRefreshHealth now l'.cluster.db).newestCompletedVersion ≠ some v ∧
      ((∃ job, l'.cluster.db.job.lookup v = some job ∧
          (job.state = .pending ∨ job.state = .leased ∨ job.state = .retry) ∧
          (readRefreshHealth now l'.cluster.db).phase = some (.job job.state)) ∨
        (∀ job, l'.cluster.db.job.lookup v = some job → job.state.live = false) ∧
          (readRefreshHealth now l'.cluster.db).phase = some .waitingForSignals) := by
  have hordered := (run_invariant hstart.invariant hrun).ordered
  have hcurrent : l'.cluster.db.version = some v := by
    rw [RefreshDb.version, hcursor, Option.bind_some, hversion]
  have hunstamped : l'.cluster.db.refreshed v = none := by
    unfold RefreshDb.refreshed
    cases hrow : l'.cluster.db.latch.lookup v with
    | none => rfl
    | some row => exact howed row hrow
  have hnewest := hordered.newestCompleted_ne hcurrent hunstamped
  exact ⟨hcurrent, hnewest, hordered.activePhase_of_newestCompleted_ne hcurrent hnewest⟩

theorem health_reports_owed_work_first_signal :
    ∃ l' : Loader Nat, Run ⟨.boot .empty 0, [], []⟩ l' ∧
      l'.cluster.db.cursor = some ⟨1, some "20240101", 0⟩ ∧
      (l'.cluster.db.latch.lookup "20240101").map LatchRow.refreshedAt = some none ∧
      (readRefreshHealth 5 l'.cluster.db).currentVersion = some "20240101" ∧
      (readRefreshHealth 5 l'.cluster.db).newestCompletedVersion ≠ some "20240101" := by
  have heval : (runEvents ⟨Cluster.boot .empty 0, [], []⟩
      [.protocol (.signal "20240101" .artists)]).map (fun l : Loader Nat =>
        (l.cluster.db.cursor, (l.cluster.db.latch.lookup "20240101").map LatchRow.refreshedAt)) =
      some (some ⟨1, some "20240101", 0⟩, some none) := by
    decide +kernel
  obtain ⟨l', hl', hread⟩ := Option.map_eq_some_iff.1 heval
  obtain ⟨hcursor, hrow⟩ := Prod.mk.inj hread
  have hrun := run_of_runEvents hl'
  have hstart : Starts (⟨Cluster.boot .empty 0, [], []⟩ : Loader Nat) :=
    ⟨Cluster.boot_initial _ _, ⟨rfl, fun _ => rfl, by simp [Cluster.boot, RefreshDb.empty]⟩, rfl, rfl⟩
  have hunstamped : ∀ row, l'.cluster.db.latch.lookup "20240101" = some row →
      row.refreshedAt = none := by
    intro row hlookup
    simpa [hlookup] using hrow
  obtain ⟨hcurrent, hnewest, -⟩ := health_reports_owed_work hstart hrun hcursor rfl hunstamped 5
  exact ⟨l', hrun, hcursor, hrow, hcurrent, hnewest⟩

end Loader

/-! ## Finished work

A latch is stamped by the worker that completed its job, or it came stamped out of the
inline protocol; then no job of it is ever completed. -/

structure Accounted (before db : RefreshDb) : Prop where
  stamped : ∀ v, (db.refreshed v).isSome → (before.refreshed v).isSome ∨ db.completed v = true
  inherited : ∀ v, (before.refreshed v).isSome →
    (db.refreshed v).isSome ∧ db.completed v = false

variable {before db' : RefreshDb} {now : Time} {grant : Option Token}

theorem Legacy.accounted (h : Legacy db) : Accounted db db where
  stamped := fun _ hstamped => .inl hstamped
  inherited := by
    intro v hstamped
    refine ⟨hstamped, ?_⟩
    unfold RefreshDb.completed
    rw [h.job]
    rfl

theorem Accounted.of_unpublished (h : Accounted before db) (hsame : Unpublished db db') :
    Accounted before db' where
  stamped := by
    intro v hstamped
    rw [hsame.1] at hstamped
    rw [hsame.2]
    exact h.stamped v hstamped
  inherited := by
    intro v hstamped
    rw [hsame.1, hsame.2]
    exact h.inherited v hstamped

theorem Accounted.of_completion {job : ClaimedJob} (h : Accounted before db)
    (hcompletion : Completion now job db db') : Accounted before db' := by
  cases hcompletion with
  | @mk latch row _ hlatch _ hnone _ _ _ _ =>
    have hunstamped : db.refreshed job.version = none := by
      rw [RefreshDb.refreshed, hlatch, Option.bind_some, hnone]
    constructor
    · intro v hstamped
      -- only the latch and the job of its version change
      by_cases hv : v = job.version
      · exact .inr (by simp [RefreshDb.completed, hv])
      · unfold RefreshDb.refreshed at hstamped
        unfold RefreshDb.completed
        rw [Table.lookup_insert_of_ne _ _ hv] at hstamped ⊢
        exact h.stamped v hstamped
    · intro v hstamped
      obtain ⟨hkept, hopen⟩ := h.inherited v hstamped
      have hv : v ≠ job.version := by
        rintro rfl
        rw [hunstamped] at hkept
        cases hkept
      unfold RefreshDb.refreshed RefreshDb.completed
      rw [Table.lookup_insert_of_ne _ _ hv, Table.lookup_insert_of_ne _ _ hv]
      exact ⟨hkept, hopen⟩

/-- A report that names no phase is not degraded. -/
theorem status_of_activePhase (h : activePhase db = none) (now : Time) :
    (readRefreshHealth now db).status = .enabled := by
  simp [readRefreshHealth, degraded, h]

theorem completed_iff : db.completed v = true ↔
    ∃ job, db.job.lookup v = some job ∧ job.state = .completed := by
  unfold RefreshDb.completed
  cases db.job.lookup v with
  | none => simp
  | some job => simp

/-- With a completed job at the cursor's version there is no phase. -/
theorem Ordered.activePhase_of_completed (h : Ordered db) (hversion : db.version = some v)
    (hcompleted : db.completed v = true) : activePhase db = none := by
  obtain ⟨job, hjob, hstate⟩ := completed_iff.1 hcompleted
  have hnewest := h.newestCompleted_of_current hversion hjob hstate
  have hidle : activeJob db = none := by
    cases hactive : activeJob db with
    | none => rfl
    | some row =>
      obtain ⟨hrow, hlive⟩ := activeJob_eq_some hactive
      have hsame := h.activeJob_version hactive
      rw [hversion] at hsame
      cases hsame
      rw [hjob] at hrow
      cases hrow
      rw [hstate] at hlive
      cases hlive
  simp [activePhase, hidle, waiting, hnewest, hversion]

namespace Loader

variable {R : Type} {l l' : Loader R}

theorem perform_unpublished (now : Time) {ρ : Type} (op : Call ρ) (d : Delivery) (answer : Answer)
    (hordered : Ordered db) (hsettled : Settled dataTypes db) :
    Unpublished db (op.perform now d answer db).2 :=
  (perform_spec now op d answer hordered hsettled false (by simp)).1.unpublished

theorem step_accounted {event : Event R} (hinvariant : l.Invariant)
    (h : Accounted before l.cluster.db) (hstep : l.step event = some l') :
    Accounted before l'.cluster.db := by
  cases event with
  | protocol action =>
    obtain ⟨cluster, hcluster, rfl⟩ := Option.map_eq_some_iff.1 hstep
    rcases Cluster.step_tables hinvariant.claims hcluster with ⟨grant, hwrites⟩ | ⟨job, hcompletion⟩
    · exact h.of_unpublished hwrites.unpublished
    · exact h.of_completion hcompletion
  | deliver d =>
    cases hstep
    exact h
  | answer index answer =>
    obtain ⟨⟨d, program⟩, _, hanswer⟩ := Option.bind_eq_some_iff.1 hstep
    cases program with
    | done _ => cases hanswer
    | raise _ => cases hanswer
    | call op k =>
      simp only [answerStep, Option.some.injEq] at hanswer
      subst hanswer
      exact h.of_unpublished
        (perform_unpublished _ op d answer hinvariant.ordered hinvariant.settled)
  | cancel index =>
    cases hstep
    exact h
  | crash =>
    cases hstep
    exact h

theorem run_accounted (hstart : l.Starts) (hrun : Run l l') :
    l'.Invariant ∧ Accounted l.cluster.db l'.cluster.db := by
  induction hrun with
  | refl => exact ⟨hstart.invariant, hstart.tables.accounted⟩
  | tail _ hstep ih =>
    obtain ⟨event, hevent⟩ := hstep
    exact ⟨step_invariant ih.1 hevent, step_accounted ih.1 ih.2 hevent⟩

/-- Finished work is reported as done, now and at any later time, exactly when the latch
    was not already stamped at the cutover. -/
theorem finished_work_is_clear_iff (hstart : l.Starts) (hrun : Run l l') {cursor : Cursor}
    (hcursor : l'.cluster.db.cursor = some cursor) (hversion : cursor.version = some v) :
    ((l'.cluster.db.refreshed v).isSome → ∀ now,
      (readRefreshHealth now l'.cluster.db).phase = none ∧
        (readRefreshHealth now l'.cluster.db).status = .enabled) ↔
      l.cluster.db.refreshed v = none := by
  obtain ⟨hinvariant, haccounted⟩ := run_accounted hstart hrun
  have hcurrent : l'.cluster.db.version = some v := by
    rw [RefreshDb.version, hcursor, Option.bind_some, hversion]
  constructor
  · intro hclear
    by_contra hstamped
    obtain ⟨hkept, hopen⟩ := haccounted.inherited v (Option.isSome_iff_ne_none.2 hstamped)
    have hphase := (hclear hkept 0).1
    have hnewest : newestCompleted l'.cluster.db ≠ some v := by
      intro hsome
      rw [completed_iff.2 (newestCompleted_eq_some hsome)] at hopen
      cases hopen
    have hsome := hinvariant.ordered.activePhase_of_newestCompleted_ne hcurrent hnewest
    have hnone : activePhase l'.cluster.db = none := hphase
    rw [hnone] at hsome
    simp at hsome
  · intro hlegacy hstamped now
    have hcompleted : l'.cluster.db.completed v = true := by
      rcases haccounted.stamped v hstamped with hbefore | hcompleted
      · rw [hlegacy] at hbefore
        cases hbefore
      · exact hcompleted
    have hphase := hinvariant.ordered.activePhase_of_completed hcurrent hcompleted
    exact ⟨hphase, status_of_activePhase hphase now⟩

/-- The four signals of a version, and a worker that takes its job to the commit. -/
def refreshedByWorker : List (Event Nat) :=
  [.protocol (.signal "20240101" .artists), .protocol (.signal "20240101" .labels),
    .protocol (.signal "20240101" .masters), .protocol (.signal "20240101" .releases),
    .protocol (.claim "worker" 1 fun _ => false), .protocol (.start 1), .protocol (.acquire 1),
    .protocol (.finish 1), .protocol (.commit 1)]

theorem finished_work_is_clear_iff_worker :
    ∃ l' : Loader Nat, Run ⟨.boot .empty 0, [], []⟩ l' ∧
      l'.cluster.db.refreshed "20240101" = some 0 ∧
      ∀ now, (readRefreshHealth now l'.cluster.db).phase = none ∧
        (readRefreshHealth now l'.cluster.db).status = .enabled := by
  have heval : (runEvents ⟨Cluster.boot .empty 0, [], []⟩ refreshedByWorker).map
      (fun l : Loader Nat => (l.cluster.db.cursor, l.cluster.db.refreshed "20240101")) =
      some (some ⟨1, some "20240101", 0⟩, some 0) := by
    decide +kernel
  obtain ⟨l', hl', hread⟩ := Option.map_eq_some_iff.1 heval
  obtain ⟨hcursor, hstamped⟩ := Prod.mk.inj hread
  have hrun := run_of_runEvents hl'
  have hstart : Starts (⟨Cluster.boot .empty 0, [], []⟩ : Loader Nat) :=
    ⟨Cluster.boot_initial _ _, ⟨rfl, fun _ => rfl, by simp [Cluster.boot, RefreshDb.empty]⟩, rfl, rfl⟩
  refine ⟨l', hrun, hstamped, (finished_work_is_clear_iff hstart hrun hcursor rfl).2 rfl ?_⟩
  rw [hstamped]
  rfl

/-- A latch the inline protocol completed and stamped. -/
def stampedInline : LatchRow :=
  { LatchRow.fresh 0 with signals := dataTypes, refreshedAt := some 0 }

/-- The tables at a cutover after the inline protocol refreshed its newest dump. -/
def cutover : RefreshDb :=
  { RefreshDb.empty with latch := Table.empty.insert "20240101" stampedInline }

theorem cutover_starts : Starts (⟨Cluster.boot cutover 0, [], []⟩ : Loader Nat) := by
  refine ⟨Cluster.boot_initial _ _, ⟨rfl, fun _ => rfl, ?_⟩, rfl, rfl⟩
  intro v row hrow
  simp only [Cluster.boot, cutover, Table.lookup_insert] at hrow
  split at hrow
  · cases hrow
    rfl
  · cases hrow

/-- Reconciliation adopts the finished version, and from then on health waits for its
    signals; a day later the service is degraded. -/
theorem cutover_health_waits :
    ∃ l l' : Loader Nat, l.Starts ∧ Run l l' ∧
      l'.cluster.db.cursor = some ⟨1, some "20240101", 0⟩ ∧
      (l'.cluster.db.refreshed "20240101").isSome ∧
      (readRefreshHealth 0 l'.cluster.db).phase = some .waitingForSignals ∧
      (readRefreshHealth 86401 l'.cluster.db).status = .degraded := by
  have heval : (runEvents ⟨Cluster.boot cutover 0, [], []⟩ [.protocol .reconcile]).map
      (fun l : Loader Nat => (l.cluster.db.cursor, (l.cluster.db.refreshed "20240101").isSome,
        (readRefreshHealth 0 l.cluster.db).phase, (readRefreshHealth 86401 l.cluster.db).status)) =
      some (some ⟨1, some "20240101", 0⟩, true, some .waitingForSignals, .degraded) := by
    decide +kernel
  obtain ⟨l', hl', hread⟩ := Option.map_eq_some_iff.1 heval
  simp only [Prod.mk.injEq] at hread
  exact ⟨_, l', cutover_starts, run_of_runEvents hl', hread⟩

end Loader

end Tableinator.Durable
