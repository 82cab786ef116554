import Mathlib.Data.Fintype.EquivFin
import Tableinator.Durable.ModeSwitch

/-! # Owed work gets done

Workers crash between any two steps, lose their leases, and fail.  Whatever they leave
behind, the clock and one more worker are enough: a lease expires within
`leaseSeconds`, a retry is due within `maxBackoffSeconds`, and the claim that follows
passes both fences. -/

namespace Tableinator.Durable

open Relational
open Deployment (Trimmed)

variable {now now' delay : Time} {required : Finset DataType} {db db' : RefreshDb} {v version : String}

/-! ## Due times -/

/-- A lease ends, and a job that waits is due, within a bounded time. -/
structure JobRow.Timed (now : Time) (row : JobRow) : Prop where
  leased : row.state = .leased → ∃ expires, row.leaseExpiresAt = some expires ∧ expires ≤ now + leaseSeconds
  waiting : row.state = .pending ∨ row.state = .retry →
    ∃ next, row.nextAttemptAt = some next ∧ next ≤ now + maxBackoffSeconds

def Timed (now : Time) (db : RefreshDb) : Prop :=
  ∀ v row, db.job.lookup v = some row → row.Timed now

theorem backoff_le (attempts : Nat) : backoff attempts ≤ maxBackoffSeconds := Nat.min_le_left _ _

theorem JobRow.Timed.mono {row : JobRow} (h : row.Timed now) (hle : now ≤ now') : row.Timed now' where
  leased hstate := by
    obtain ⟨expires, hexpires, hbound⟩ := h.leased hstate
    exact ⟨expires, hexpires, hbound.trans (Nat.add_le_add_right hle _)⟩
  waiting hstate := by
    obtain ⟨next, hnext, hbound⟩ := h.waiting hstate
    exact ⟨next, hnext, hbound.trans (Nat.add_le_add_right hle _)⟩

theorem Timed.mono (h : Timed now db) (hle : now ≤ now') : Timed now' db :=
  fun v row hrow => (h v row hrow).mono hle

theorem timed_of_dead {row : JobRow} (h : row.state.live = false) : row.Timed now where
  leased hstate := by
    rw [hstate] at h
    cases h
  waiting hstate := by
    rcases hstate with hstate | hstate
    · rw [hstate] at h
      cases h
    · rw [hstate] at h
      cases h

theorem timed_retryAfter (row : JobRow) (error : String) (hdelay : delay ≤ maxBackoffSeconds) :
    (row.retryAfter now delay error).Timed now where
  leased hstate := by cases hstate
  waiting _ := ⟨now + delay, rfl, Nat.add_le_add_left hdelay now⟩

theorem timed_fresh (now : Time) (generation : Nat) : (JobRow.fresh now generation).Timed now where
  leased hstate := by cases hstate
  waiting _ := ⟨now, rfl, Nat.le_add_right _ _⟩

theorem timed_lease (row : JobRow) (owner : String) (token : Token) : (row.lease now owner token).Timed now where
  leased _ := ⟨now + leaseSeconds, rfl, le_rfl⟩
  waiting hstate := by
    rcases hstate with hstate | hstate
    · cases hstate
    · cases hstate

theorem JobRow.Timed.renew {row : JobRow} (h : row.Timed now) :
    JobRow.Timed now { row with leaseExpiresAt := some (now + leaseSeconds), updatedAt := now } where
  leased _ := ⟨now + leaseSeconds, rfl, le_rfl⟩
  waiting hstate := h.waiting hstate

theorem Timed.insert {row : JobRow} (h : Timed now db) (hrow : row.Timed now) :
    Timed now { db with job := db.job.insert version row } := by
  intro v row' hrow'
  rw [Table.lookup_insert] at hrow'
  split at hrow'
  · cases hrow'
    exact hrow
  · exact h v row' hrow'

theorem Timed.update {f : String → JobRow → JobRow} (h : Timed now db)
    (hf : ∀ v row, row.Timed now → (f v row).Timed now) :
    Timed now { db with job := db.job.update f } := by
  intro v row' hrow'
  rw [Table.lookup_update] at hrow'
  obtain ⟨row, hrow, rfl⟩ := Option.map_eq_some_iff.1 hrow'
  exact hf v row (h v row hrow)

theorem Timed.of_job (h : Timed now db) (hjob : db'.job = db.job) : Timed now db' := by
  intro v row hrow
  rw [hjob] at hrow
  exact h v row hrow

/-! ## No transaction postpones a job for longer -/

theorem lockCursor_timed (h : Timed now db) : Timed now (lockCursor now db).2 :=
  h.of_job (lockCursor_job now db)

theorem advanceCursor_timed (generation : Nat) (version : String) (h : Timed now db) :
    Timed now (advanceCursor now generation version db) := by
  intro v row' hrow'
  rw [advanceCursor_job] at hrow'
  obtain ⟨row, hrow, rfl⟩ := Option.map_eq_some_iff.1 hrow'
  split
  · exact timed_of_dead rfl
  · exact h v row hrow

theorem accept_timed (version : String) {st : Reconciling} (h : Timed now st.db) :
    Timed now (st.accept now version).db := by
  unfold Reconciling.accept
  split
  · exact advanceCursor_timed _ _ h
  · exact h

theorem upsertJob_timed {generation : Nat} {fresh : Bool} (h : Timed now db)
    (hjob : upsertJob now version generation db = .ok (fresh, db')) : Timed now db' := by
  unfold upsertJob at hjob
  split at hjob
  · cases hjob
    exact h
  · split at hjob
    · cases hjob
    · split at hjob
      · cases hjob
      · cases hjob
        exact h.insert (timed_fresh now generation)

theorem reconcileLegacy_timed {st : Reconciling} (h : Timed now db)
    (hst : reconcileLegacy now required db = .ok st) : Timed now st.db := by
  refine foldlM_invariant (fun st => Timed now st.db) ?_ (lockCursor_timed h) hst
  rintro st ⟨k, r⟩ st' - hst hrow
  rcases reconcileRow_cases hrow with ⟨rfl, -⟩ | ⟨version, -, -, -, -, ⟨hdb, -⟩ | ⟨-, -, fresh, hjob⟩⟩
  · exact hst
  · rw [hdb]
    exact (accept_timed version hst).of_job rfl
  · have hassigned : Timed now (assignGeneration now (st.accept now version).generation version
        (st.accept now version).db) := (accept_timed version hst).of_job rfl
    exact upsertJob_timed hassigned hjob

theorem recordDurableSignal_timed {versionValue : String} {dataType : DataType} {result : DurableSignal}
    (h : Timed now db) (hsignal : recordDurableSignal now versionValue dataType required db = .ok (result, db')) :
    Timed now db' := by
  obtain ⟨version, st, -, -, hst, haccept⟩ := recordDurableSignal_eq_ok.1 hsignal
  have hmarked : Timed now (st.signal now version dataType).2 :=
    (accept_timed version (reconcileLegacy_timed h hst)).of_job rfl
  rcases acceptSignal_cases haccept with ⟨rfl, -⟩ | ⟨-, -, fresh, hjob⟩
  · exact hmarked
  · exact upsertJob_timed hmarked hjob

theorem claimDueJob_timed (owner : String) (token : Token) (locked : String → Bool) (h : Timed now db) :
    Timed now (claimDueJob now owner token locked db).2 := by
  have hlock := lockCursor_timed h
  unfold claimDueJob
  split
  next cursor db₁ heq =>
  rw [heq] at hlock
  split
  · exact hlock
  · split
    · exact hlock
    · split
      · exact hlock.insert (timed_of_dead rfl)
      · split
        · exact hlock.insert (timed_retryAfter _ _ (backoff_le _))
        · exact hlock.insert (timed_lease _ owner token)

theorem heartbeat_timed (job : ClaimedJob) (h : Timed now db) : Timed now (heartbeat now job db).2 := by
  unfold heartbeat
  split
  · refine h.update fun v row hrow => ?_
    split
    · exact hrow.renew
    · exact hrow
  · exact h

theorem markAfterFailure_timed (job : ClaimedJob) (error : String) (h : Timed now db) :
    Timed now (markAfterFailure now job error db) := by
  refine h.update fun v row hrow => ?_
  split
  · split
    · exact timed_retryAfter _ _ (backoff_le _)
    · exact timed_of_dead rfl
  · exact hrow

theorem Completion.timed {job : ClaimedJob} (hcompletion : Completion now job db db') (h : Timed now db) :
    Timed now db' := by
  cases hcompletion with
  | mk _ _ _ _ _ _ _ _ =>
    have hstamped : ∀ latch, Timed now { db with latch := latch } := fun latch => h.of_job rfl
    exact (hstamped _).insert (timed_of_dead rfl)

namespace Cluster

variable {R : Type} {s s' : Cluster R} {token : Token}

theorem unlock_relations (s : Cluster R) (token : Token) : (s.unlock token).relations = s.relations := by
  obtain ⟨lock, hlock⟩ := unlock_eq s token
  rw [hlock]

theorem Transacts.timed {db : RefreshDb} (htransacts : Transacts required s db) (h : Timed s.now s.db) :
    Timed s.now db := by
  cases htransacts with
  | nothing => exact h
  | signal hsignal => exact recordDurableSignal_timed h hsignal
  | reconcile hreconcile =>
    obtain ⟨st, hst, rfl⟩ := map_eq_ok.1 hreconcile
    exact reconcileLegacy_timed h hst
  | veto version dataType => exact h.of_job rfl
  | claim owner token locked => exact claimDueJob_timed owner token locked h
  | renew job => exact heartbeat_timed job h
  | complete hcommit => exact (beforeCommit_completion hcommit).timed h
  | settle job error => exact markAfterFailure_timed job error h

theorem step_timed {a : Action R} (h : Timed s.now s.db) (hstep : s.step required a = some s') :
    Timed s'.now s'.db := by
  obtain ⟨hlater, htransacts⟩ := step_transacts hstep
  exact (htransacts.timed h).mono hlater

/-- The invariants a recovery rests on. -/
structure Sound (s : Cluster R) : Prop where
  claims : s.Claims
  ordered : Ordered s.db
  settled : Settled dataTypes s.db
  trimmed : Trimmed s.db
  idle : Idle s.db
  timed : Timed s.now s.db

theorem Initial.sound (h : s.Initial) (hlegacy : Legacy s.db) (htrimmed : Trimmed s.db) : s.Sound where
  claims := h.claims
  ordered := hlegacy.ordered
  settled := by
    intro v row hrow hsome
    rw [hlegacy.latch v row hrow] at hsome
    cases hsome
  trimmed := htrimmed
  idle := by
    rintro v - ⟨job, hjob, -⟩
    rw [hlegacy.job] at hjob
    cases hjob
  timed := by
    intro v row hrow
    rw [hlegacy.job] at hrow
    cases hrow

theorem Sound.step {a : Action R} (h : s.Sound) (hstep : s.step dataTypes a = some s') : s'.Sound where
  claims := step_claims h.claims hstep
  ordered := step_ordered h.claims h.ordered hstep
  settled := step_settled h.claims h.ordered h.settled hstep
  trimmed := step_trimmed h.claims h.trimmed hstep
  idle := step_idle h.claims h.trimmed h.idle hstep
  timed := step_timed h.timed hstep

theorem Sound.run (h : s.Sound) (hrun : Run dataTypes s s') : s'.Sound := by
  induction hrun with
  | refl => exact h
  | tail _ hstep ih =>
    obtain ⟨a, ha⟩ := hstep
    exact ih.step ha

theorem runActions_append {first rest : List (Action R)} {mid : Cluster R}
    (hfirst : s.runActions required first = some mid) (hrest : mid.runActions required rest = some s') :
    s.runActions required (first ++ rest) = some s' := by
  induction first generalizing s with
  | nil =>
    cases hfirst
    exact hrest
  | cons a first ih =>
    obtain ⟨next, hstep, hnext⟩ := Option.bind_eq_some_iff.1 hfirst
    exact Option.bind_eq_some_iff.2 ⟨next, hstep, ih hnext⟩

theorem exists_fresh (s : Cluster R) : ∃ token, s.fresh token = true := by
  obtain ⟨token, hfresh⟩ := Infinite.exists_notMem_finset
    (s.issued.toFinset ∪ (s.db.job.rows.filterMap fun row => row.2.leaseToken).toFinset)
  rw [Finset.mem_union, List.mem_toFinset, List.mem_toFinset, not_or] at hfresh
  refine ⟨token, fresh_iff.2 ⟨hfresh.1, fun v row hrow htoken => hfresh.2 ?_⟩⟩
  exact List.mem_filterMap.2 ⟨(v, row), (Table.mem_rows _ _ _).2 hrow, htoken⟩

end Cluster

/-! ## The claim of the live job -/

/-- One version at most has a live job. -/
theorem Ordered.live_unique (h : Ordered db) {row other : JobRow} (hrow : db.job.lookup v = some row)
    (hlive : row.state.live = true) (hother : db.job.lookup version = some other)
    (hotherLive : other.state.live = true) : version = v ∧ other = row := by
  have hv := h.live_current hrow hlive
  have hversion := h.live_current hother hotherLive
  obtain rfl : v = version := Option.some.inj (hv.symm.trans hversion)
  exact ⟨rfl, Option.some.inj (hother.symm.trans hrow)⟩

theorem Ordered.dueJob_eq (h : Ordered db) {row : JobRow} (hrow : db.job.lookup v = some row)
    (hdue : row.due now = true) : dueJob now (fun _ => false) db = some (v, row) := by
  have hlive := JobRow.live_of_due hdue
  cases hfirst : dueJob now (fun _ => false) db with
  | none =>
    have hempty := List.head?_eq_none_iff.1 hfirst
    have hmem : (v, row) ∈ db.job.rows.filter fun row => row.2.due now && !(fun _ => false) row.1 :=
      List.mem_filter.2 ⟨(Table.mem_rows _ _ _).2 hrow, by simp [hdue]⟩
    rw [← List.mem_insertionSort claimOrder, hempty] at hmem
    cases hmem
  | some first =>
    obtain ⟨version, other⟩ := first
    obtain ⟨hother, hotherDue⟩ := dueJob_mem hfirst
    obtain ⟨rfl, rfl⟩ := h.live_unique hrow hlive hother (JobRow.live_of_due hotherDue)
    rfl

theorem lockCursor_of_version (now : Time) (h : db.version = some v) :
    ∃ cursor, lockCursor now db = (cursor, db) ∧ cursor.generation = db.generation := by
  unfold RefreshDb.version at h
  obtain ⟨cursor, hcursor, -⟩ := Option.bind_eq_some_iff.1 h
  refine ⟨cursor, ?_, ?_⟩
  · unfold lockCursor
    rw [hcursor]
  · rw [RefreshDb.generation, hcursor]
    rfl

/-- What a claim makes of the live job once it is due. -/
theorem Ordered.claimDueJob_eq (h : Ordered db) {row : JobRow} (owner : String) (token : Token)
    (hrow : db.job.lookup v = some row) (hdue : row.due now = true) (hexpired : row.activeLease now = false) :
    claimDueJob now owner token (fun _ => false) db =
      if row.state = .leased then
        (none, { db with job := db.job.insert v (row.retryAfter now (backoff row.attemptCount) "lease_expired") })
      else
        (some ⟨v, row.generation, token, row.leaseEpoch + 1, row.attemptCount + 1⟩,
          { db with job := db.job.insert v (row.lease now owner token) }) := by
  have hlive := JobRow.live_of_due hdue
  obtain ⟨cursor, hlock, hgeneration⟩ := lockCursor_of_version now (h.live_current hrow hlive)
  have hnone : (db.job.rows.any fun row => row.2.activeLease now) = false := by
    refine List.any_eq_false.2 fun entry hentry hactive => ?_
    have hother := (Table.mem_rows _ _ _).1 hentry
    have hleased : entry.2.state = .leased := by
      simp only [JobRow.activeLease, Bool.and_eq_true, beq_iff_eq] at hactive
      exact hactive.1
    obtain ⟨-, hsame⟩ := h.live_unique hrow hlive hother (JobRow.live_of_leased hleased)
    rw [hsame, hexpired] at hactive
    cases hactive
  unfold claimDueJob
  rw [hlock]
  dsimp only
  rw [hnone, if_neg Bool.false_ne_true, h.dueJob_eq hrow hdue]
  dsimp only
  rw [if_neg]
  rw [hgeneration, h.jobLive v row hrow hlive]
  exact fun hne => hne rfl

/-! ## The recovery -/

variable {R : Type}

/-- The clock and the workers act, and no producer. -/
def Action.unaided : Action R → Bool
  | .signal _ _ | .reconcile | .veto _ _ => false
  | _ => true

def Action.waits : Action R → Time
  | .tick seconds => seconds
  | _ => 0

/-- The seconds a schedule waits. -/
def waited : List (Action R) → Time
  | [] => 0
  | a :: as => a.waits + waited as

theorem waited_append (as bs : List (Action R)) : waited (as ++ bs) = waited as + waited bs := by
  induction as with
  | nil => exact (Nat.zero_add _).symm
  | cons a as ih => rw [List.cons_append, waited, waited, ih, Nat.add_assoc]

namespace Cluster

variable {s s' mid : Cluster R} {token : Token} {first rest : Time} {row : JobRow}

/-- Some schedule of the workers takes `s` to `s'` and waits no longer than that. -/
def Unaided (within : Time) (s s' : Cluster R) : Prop :=
  ∃ as : List (Action R), (∀ a ∈ as, a.unaided = true) ∧ waited as ≤ within ∧
    s.runActions dataTypes as = some s'

theorem Unaided.refl (s : Cluster R) : Unaided 0 s s :=
  ⟨[], fun _ hmem => absurd hmem List.not_mem_nil, le_rfl, rfl⟩

theorem Unaided.trans (hfirst : Unaided first s mid) (hrest : Unaided rest mid s') :
    Unaided (first + rest) s s' := by
  obtain ⟨as, hunaided, hwaits, hrun⟩ := hfirst
  obtain ⟨bs, hunaided', hwaits', hrun'⟩ := hrest
  refine ⟨as ++ bs, ?_, ?_, runActions_append hrun hrun'⟩
  · intro a ha
    rcases List.mem_append.1 ha with ha | ha
    · exact hunaided a ha
    · exact hunaided' a ha
  · rw [waited_append]
    exact Nat.add_le_add hwaits hwaits'

theorem Unaided.tail {a : Action R} (hfirst : Unaided first s mid) (ha : a.unaided = true)
    (hstep : mid.step dataTypes a = some s') : Unaided (first + a.waits) s s' := by
  refine hfirst.trans ⟨[a], ?_, le_rfl, Option.bind_eq_some_iff.2 ⟨s', hstep, rfl⟩⟩
  intro b hb
  obtain rfl := List.mem_singleton.1 hb
  exact ha

theorem Unaided.mono (h : Unaided first s s') (hle : first ≤ rest) : Unaided rest s s' := by
  obtain ⟨as, hunaided, hwaits, hrun⟩ := h
  exact ⟨as, hunaided, hwaits.trans hle, hrun⟩

theorem Unaided.run (h : Unaided first s s') : Run dataTypes s s' := by
  obtain ⟨as, -, -, hrun⟩ := h
  exact run_of_runActions hrun

/-- The worker that holds the advisory lock may be dead, which frees it. -/
theorem exists_unlocked (s : Cluster R) :
    ∃ mid, Unaided 0 s mid ∧ mid.lock = none ∧ mid.db = s.db ∧ mid.now = s.now := by
  cases hlock : s.lock with
  | none => exact ⟨s, .refl s, hlock, rfl, rfl⟩
  | some token =>
    refine ⟨(s.setWorker token none).unlock token, (Unaided.refl s).tail (a := .crash token) rfl rfl, ?_, ?_, ?_⟩
    · rw [unlock, if_pos (by exact hlock)]
    · exact unlock_db _ _
    · exact unlock_now _ _

theorem claimStep_none {owner : String} {locked : String → Bool}
    (h : claimDueJob s.now owner token locked s.db = (none, db')) :
    s.claimStep owner token locked = { s with db := db', issued := token :: s.issued } := by
  unfold claimStep
  rw [h]

theorem claimStep_some {owner : String} {locked : String → Bool} {job : ClaimedJob}
    (h : claimDueJob s.now owner token locked s.db = (some job, db')) :
    s.claimStep owner token locked = { s with db := db', issued := token :: s.issued }.setWorker token
      (some ⟨job, false, .claimed⟩) := by
  unfold claimStep
  rw [h]

/-- An expired lease is put back for a retry. -/
theorem exists_retry (hs : s.Sound) (owner : String) (hrow : s.db.job.lookup v = some row)
    (hleased : row.state = .leased) : ∃ mid row', Unaided leaseSeconds s mid ∧ mid.lock = s.lock ∧
      mid.db.job.lookup v = some row' ∧ row'.state = .retry := by
  obtain ⟨expires, hexpires, hbound⟩ := (hs.timed v row hrow).leased hleased
  let late : Cluster R := { s with now := s.now + (expires - s.now) }
  have hlate : expires ≤ late.now := le_add_tsub
  have hdue : row.due late.now = true := by
    simp [JobRow.due, JobRow.expiredLease, hleased, hexpires, hlate]
  have hexpired : row.activeLease late.now = false := by
    simp [JobRow.activeLease, hleased, hexpires, hlate]
  obtain ⟨token, hfresh⟩ := exists_fresh late
  have hclaim := hs.ordered.claimDueJob_eq owner token hrow hdue hexpired
  rw [if_pos hleased] at hclaim
  have htick : Unaided (0 + (expires - s.now)) s late := (Unaided.refl s).tail (a := .tick _) rfl rfl
  have hstep : late.step dataTypes (.claim owner token fun _ => false) = some _ :=
    (if_pos hfresh).trans (congrArg some (claimStep_none hclaim))
  refine ⟨_, row.retryAfter late.now (backoff row.attemptCount) "lease_expired",
    (htick.tail rfl hstep).mono ?_, rfl, Table.lookup_insert_self _ _ _, rfl⟩
  show 0 + (expires - s.now) + 0 ≤ leaseSeconds
  rw [Nat.zero_add, Nat.add_zero]
  exact tsub_le_iff_left.2 hbound

/-- A job that waits is leased once it is due. -/
theorem exists_claimed (hs : s.Sound) (owner : String) (hrow : s.db.job.lookup v = some row)
    (hwaiting : row.state = .pending ∨ row.state = .retry) : ∃ mid token job,
      Unaided maxBackoffSeconds s mid ∧ mid.lock = s.lock ∧ job.version = v ∧
        mid.workers token = some ⟨job, false, .claimed⟩ ∧ mid.holds job = true := by
  obtain ⟨next, hnext, hbound⟩ := (hs.timed v row hrow).waiting hwaiting
  let late : Cluster R := { s with now := s.now + (next - s.now) }
  have hlate : next ≤ late.now := le_add_tsub
  have hnotLeased : row.state ≠ .leased := by
    rcases hwaiting with hstate | hstate
    · rw [hstate]
      decide
    · rw [hstate]
      decide
  have hdue : row.due late.now = true := by
    rcases hwaiting with hstate | hstate
    · simp [JobRow.due, hstate, hnext, hlate]
    · simp [JobRow.due, hstate, hnext, hlate]
  have hexpired : row.activeLease late.now = false := by
    simp [JobRow.activeLease, hnotLeased]
  obtain ⟨token, hfresh⟩ := exists_fresh late
  have hclaim := hs.ordered.claimDueJob_eq owner token hrow hdue hexpired
  rw [if_neg hnotLeased] at hclaim
  have htick : Unaided (0 + (next - s.now)) s late := (Unaided.refl s).tail (a := .tick _) rfl rfl
  have hstep : late.step dataTypes (.claim owner token fun _ => false) = some _ :=
    (if_pos hfresh).trans (congrArg some (claimStep_some hclaim))
  refine ⟨_, token, ⟨v, row.generation, token, row.leaseEpoch + 1, row.attemptCount + 1⟩,
    (htick.tail rfl hstep).mono ?_, rfl, rfl, ?_, ?_⟩
  · show 0 + (next - s.now) + 0 ≤ maxBackoffSeconds
    rw [Nat.zero_add, Nat.add_zero]
    exact tsub_le_iff_left.2 hbound
  · rw [setWorker_workers, if_pos rfl]
  · have hlive : row.state.live = true := JobRow.live_of_due hdue
    rw [holds_iff]
    refine ⟨(hs.ordered.jobLive v row hrow hlive).symm, hs.ordered.live_current hrow hlive,
      row.lease late.now owner token, Table.lookup_insert_self _ _ _, rfl, rfl, rfl, ?_⟩
    simp [JobRow.lease, leaseSeconds]

/-- The fences let a claim that still holds through. -/
theorem exists_beforeCommit {job : ClaimedJob} (hs : s.Sound) (hholds : s.holds job = true) :
    ∃ db, beforeCommit s.now job s.db = .ok db ∧ (db.refreshed job.version).isSome := by
  obtain ⟨-, -, row, hrow, hleased, htoken, hepoch, -⟩ := holds_iff.1 hholds
  simp only [holds, Bool.and_eq_true] at hholds
  obtain ⟨hcurrent, howns⟩ := hholds
  have hlive := JobRow.live_of_leased hleased
  have hgeneration : row.generation = job.generation :=
    (hs.ordered.jobLive _ row hrow hlive).trans (isCurrent_iff.1 hcurrent).1
  obtain ⟨latch, hlatch, hsame⟩ := Option.bind_eq_some_iff.1 (hs.ordered.jobLatch _ row hrow)
  -- A stamped latch would have no live job.
  have hunstamped : latch.refreshedAt = none := by
    cases hstamp : latch.refreshedAt with
    | none => rfl
    | some time =>
      refine absurd ⟨row, hrow, hlive⟩ (hs.idle job.version ?_)
      rw [RefreshDb.refreshed, hlatch, Option.bind_some, hstamp]
      rfl
  have hqualifies : latch.unstamped job = true := by
    simp [LatchRow.unstamped, hsame, hgeneration, hunstamped]
  have hcommit : beforeCommit s.now job s.db = .ok { s.db with
      latch := s.db.latch.insert job.version { latch with refreshedAt := some s.now, updatedAt := s.now }
      job := s.db.job.insert job.version
        { row.unlease s.now with state := .completed, completedAt := some s.now } } := by
    unfold beforeCommit
    simp only [hcurrent, howns, hlatch, hqualifies, hrow, Bool.not_true, Bool.or_self, Bool.false_eq_true,
      if_false]
    exact if_pos ⟨hgeneration, htoken, hepoch⟩
  exact ⟨_, hcommit, by simp [RefreshDb.refreshed]⟩

/-- The pass of a claim that holds publishes its draft. -/
theorem exists_commit {job : ClaimedJob} (hs : s.Sound) (draft : R) (hfree : s.lock = none)
    (hworker : s.workers token = some ⟨job, false, .claimed⟩) (hholds : s.holds job = true) :
    ∃ s', Unaided 0 s s' ∧ s'.relations = draft ∧ (s'.db.refreshed job.version).isSome := by
  obtain ⟨db, hcommit, hstamped⟩ := exists_beforeCommit hs hholds
  simp only [holds, Bool.and_eq_true] at hholds
  have hbefore : beforeRefresh s.now job s.db = .ok () := beforeRefresh_eq_ok.2 hholds
  let waiting := s.setWorker token (some ⟨job, false, .waiting⟩)
  let refreshing (draft : R) : Cluster R :=
    { waiting with lock := some token }.setWorker token (some ⟨job, false, .refreshing draft⟩)
  let finishing := (refreshing draft).setWorker token (some ⟨job, false, .finishing draft⟩)
  have hstart : s.step dataTypes (.start token) = some waiting := by
    simp only [step, hworker]
    rfl
  have hacquire : waiting.step dataTypes (.acquire token) = some (refreshing s.relations) := by
    have hwaiting : waiting.workers token = some ⟨job, false, .waiting⟩ := Function.update_self ..
    have hopen : waiting.lock.isSome = false := by
      rw [show waiting.lock = none from hfree]
      rfl
    simp only [step, hwaiting, hopen, acquireStep]
    rw [show beforeRefresh waiting.now job waiting.db = .ok () from hbefore]
    rfl
  have hrefresh : (refreshing s.relations).step dataTypes (.refresh token draft) = some (refreshing draft) := by
    have hopened : (refreshing s.relations).workers token = some ⟨job, false, .refreshing s.relations⟩ :=
      Function.update_self ..
    simp only [step, hopened]
    simp [refreshing, setWorker]
  have hfinish : (refreshing draft).step dataTypes (.finish token) = some finishing := by
    have hdrafted : (refreshing draft).workers token = some ⟨job, false, .refreshing draft⟩ :=
      Function.update_self ..
    simp only [step, hdrafted]
    rfl
  have hpublish : finishing.step dataTypes (.commit token) =
      some (({ finishing with db := db, relations := draft, commits := s.commits ++ [job] }.setWorker token
        none).unlock token) := by
    have hdone : finishing.workers token = some ⟨job, false, .finishing draft⟩ := Function.update_self ..
    simp only [step, hdone, commitStep]
    rw [show beforeCommit finishing.now job finishing.db = .ok db from hcommit]
    rfl
  have hopened := ((Unaided.refl s).tail rfl hstart).tail rfl hacquire
  refine ⟨_, ((hopened.tail rfl hrefresh).tail rfl hfinish).tail rfl hpublish, ?_, ?_⟩
  · rw [unlock_relations]
    rfl
  · rw [unlock_db]
    exact hstamped

/-- A live job can be refreshed, whatever state it and its workers are in. -/
theorem exists_refresh (hs : s.Sound) (owner : String) (draft : R) (hlive : s.db.LiveJob v) :
    ∃ s', Unaided (leaseSeconds + maxBackoffSeconds) s s' ∧ s'.relations = draft ∧
      (s'.db.refreshed v).isSome := by
  obtain ⟨free, hunlock, hfree, hdb, -⟩ := exists_unlocked s
  obtain ⟨row, hrow, hlive⟩ := hlive
  obtain ⟨mid, row', hretry, hmid, hrow', hwaiting⟩ : ∃ mid row', Unaided leaseSeconds s mid ∧
      mid.lock = none ∧ mid.db.job.lookup v = some row' ∧ (row'.state = .pending ∨ row'.state = .retry) := by
    rw [← hdb] at hrow
    have hzero : ∀ {mid : Cluster R}, Unaided leaseSeconds free mid → Unaided leaseSeconds s mid :=
      fun h => (hunlock.trans h).mono (Nat.zero_add _).le
    have hstill : Unaided leaseSeconds s free := hzero ((Unaided.refl free).mono (Nat.zero_le _))
    cases hstate : row.state with
    | pending => exact ⟨free, row, hstill, hfree, hrow, .inl hstate⟩
    | retry => exact ⟨free, row, hstill, hfree, hrow, .inr hstate⟩
    | leased =>
      obtain ⟨mid, row', hmid, hlock, hrow', hretry⟩ := exists_retry (hs.run hunlock.run) owner hrow hstate
      exact ⟨mid, row', hzero hmid, hlock.trans hfree, hrow', .inr hretry⟩
    | completed =>
      rw [hstate] at hlive
      cases hlive
    | superseded =>
      rw [hstate] at hlive
      cases hlive
  obtain ⟨claimed, token, job, hclaim, hlock, rfl, hworker, hholds⟩ :=
    exists_claimed (hs.run hretry.run) owner hrow' hwaiting
  have hthere := hretry.trans hclaim
  obtain ⟨s', hcommit, hrelations, hstamped⟩ :=
    exists_commit (hs.run hthere.run) draft (hlock.trans hmid) hworker hholds
  exact ⟨s', (hthere.trans hcommit).mono (Nat.add_zero _).le, hrelations, hstamped⟩

/-- Whatever the interleaving, and whatever its workers left behind: a complete extraction that was
    accepted is refreshed, or the cursor is past it, or the clock and the workers alone can still
    refresh it within that many seconds, after which it owes nothing. -/
theorem owed_refresh_can_finish {s₀ : Cluster R} (hinit : s₀.Initial) (hlegacy : Legacy s₀.db)
    (htrimmed : Trimmed s₀.db) (hrun : Run dataTypes s₀ s) {latch : LatchRow}
    (hlatch : s.db.latch.lookup v = some latch) (haccepted : latch.generation.isSome)
    (hcomplete : dataTypes ⊆ latch.signals) (owner : String) (draft : R) :
    (s.db.refreshed v).isSome ∨ s.db.Past v ∨
      ∃ s', Unaided (leaseSeconds + maxBackoffSeconds) s s' ∧ s'.relations = draft ∧
        (s'.db.refreshed v).isSome ∧ ¬s'.db.LiveJob v := by
  have hs := (hinit.sound hlegacy htrimmed).run hrun
  rcases hs.settled v latch hlatch haccepted hcomplete with hstamped | hlive | hpast
  · exact .inl hstamped
  · obtain ⟨s', hunaided, hrelations, hstamped⟩ := exists_refresh hs owner draft hlive
    exact .inr (.inr ⟨s', hunaided, hrelations, hstamped, (hs.run hunaided.run).idle v hstamped⟩)
  · exact .inr (.inl hpast)

/-- The worker that leased the job dies with the advisory lock in its hands. -/
def deadWorker : List (Action Nat) :=
  [.signal "20240101" .artists, .signal "20240101" .labels, .signal "20240101" .masters,
    .signal "20240101" .releases, .claim "worker" 1 fun _ => false, .start 1, .acquire 1]

theorem owed_refresh_can_finish_deadWorker :
    ∃ s s' : Cluster Nat, (boot .empty 0).runActions dataTypes deadWorker = some s ∧
      s.lock = some 1 ∧ Unaided 420 s s' ∧ s'.relations = 7 ∧ (s'.db.refreshed "20240101").isSome := by
  have heval : ((boot .empty 0).runActions dataTypes deadWorker).map (fun s =>
      (s.lock, s.db.version, (s.db.latch.lookup "20240101").map fun row =>
        (row.generation.isSome && row.refreshedAt.isNone && decide (dataTypes ⊆ row.signals)))) =
      some (some 1, some "20240101", some true) := by decide +kernel
  obtain ⟨s, hs, hread⟩ := Option.map_eq_some_iff.1 heval
  simp only [Prod.mk.injEq] at hread
  obtain ⟨hlock, hversion, hlatch⟩ := hread
  obtain ⟨latch, hrow, hcolumns⟩ := Option.map_eq_some_iff.1 hlatch
  simp only [Bool.and_eq_true, decide_eq_true_iff, Option.isNone_iff_eq_none] at hcolumns
  obtain ⟨⟨haccepted, hunstamped⟩, hcomplete⟩ := hcolumns
  have hlegacy : Legacy RefreshDb.empty := ⟨rfl, fun _ => rfl, by simp [RefreshDb.empty]⟩
  rcases owed_refresh_can_finish (boot_initial .empty 0) hlegacy (by simp [Trimmed, boot, RefreshDb.empty])
      (run_of_runActions hs) hrow haccepted hcomplete "worker" 7 with
    hstamped | ⟨newer, hnewer, hlt⟩ | ⟨s', hunaided, hrelations, hstamped, -⟩
  · rw [RefreshDb.refreshed, hrow, Option.bind_some, hunstamped] at hstamped
    cases hstamped
  · obtain rfl := Option.some.inj (hversion.symm.trans hnewer)
    exact absurd hlt (lt_irrefl _)
  · exact ⟨s, s', hs, hlock, hunaided, hrelations, hstamped⟩

end Cluster

end Tableinator.Durable
