import Tableinator.Relational.Transaction
import Tableinator.Durable.Worker

/-! # What a durable transaction can write

Every transaction of the protocol is a sequence of a few kinds of write, each
with the guard its caller established under the cursor lock.  `Write` lists those
that only schedule work and `Completion` the one that publishes it;
`recordDurableSignal_writes`, `claimDueJob_writes` and their siblings show that
each function does nothing else, and every invariant of the protocol is proved
one write at a time. -/

namespace Tableinator.Durable

open Relational

variable {now : Time} {grant : Option Token} {required : Finset DataType} {db db' : RefreshDb}

/-- The writes that schedule work.  Only the claim that drew the token `grant` may
    lease a job. -/
inductive Write (now : Time) (grant : Option Token) : RefreshDb → RefreshDb → Prop where
  | openCursor {db : RefreshDb} : db.cursor = none →
      Write now grant db { db with cursor := some ⟨0, none, now⟩ }
  | advance {db : RefreshDb} {c : Cursor} {version : String} : db.cursor = some c →
      orderedVersion version = .ok version → c.version.all (· < version) = true →
      Write now grant db (advanceCursor now (c.generation + 1) version db)
  | assign {db : RefreshDb} {c : Cursor} {version : String} : db.cursor = some c →
      c.version = some version →
      Write now grant db (assignGeneration now c.generation version db)
  | schedule {db : RefreshDb} {c : Cursor} {version : String} {row : LatchRow} :
      db.cursor = some c → c.version = some version → db.job.lookup version = none →
      (∀ v job, db.job.lookup v = some job → job.generation ≠ c.generation) →
      db.latch.lookup version = some row → row.generation = some c.generation →
      Write now grant db { db with job := db.job.insert version (.fresh now c.generation) }
  | signal {db : RefreshDb} {c : Cursor} {current version : String} (dataType : DataType) :
      db.cursor = some c → c.version = some current → version ≤ current →
      orderedVersion version = .ok version →
      Write now grant db (upsertSignal now version
        (if version < current then none else some c.generation) dataType db).2
  | veto {db : RefreshDb} (version : String) (dataType : DataType) :
      Write now grant db (recordPurgeVeto now version dataType db)
  | supersede {db : RefreshDb} {version : String} {row : JobRow} :
      db.job.lookup version = some row → row.state.live = true →
      db.current ≠ some (row.generation, some version) →
      Write now grant db { db with job := db.job.insert version (row.supersede now) }
  | retry {db : RefreshDb} {version : String} {row : JobRow} (delay : Time) (error : String) :
      db.job.lookup version = some row → row.state = .leased →
      Write now grant db { db with job := db.job.insert version (row.retryAfter now delay error) }
  | lease {db : RefreshDb} {c : Cursor} {version : String} {row : JobRow} (owner : String)
      {token : Token} : grant = some token → db.cursor = some c →
      db.job.lookup version = some row → row.state.live = true → row.generation = c.generation →
      Write now grant db { db with job := db.job.insert version (row.lease now owner token) }
  | renew {db : RefreshDb} {job : ClaimedJob} {row : JobRow} :
      db.job.lookup job.version = some row → row.heldBy job = true →
      row.leaseExpiresAt.any (now < ·) = true →
      Write now grant db { db with
        job := db.job.insert job.version
          { row with leaseExpiresAt := some (now + leaseSeconds), updatedAt := now } }

/-- The writes of one transaction. -/
abbrev Writes (now : Time) (grant : Option Token) : RefreshDb → RefreshDb → Prop :=
  Relation.ReflTransGen (Write now grant)

/-- The one write that publishes a pass: the latch stamp with the completed state. -/
inductive Completion (now : Time) (job : ClaimedJob) : RefreshDb → RefreshDb → Prop where
  | mk {db : RefreshDb} {latch : LatchRow} {row : JobRow} :
      db.isCurrent job = true → db.latch.lookup job.version = some latch →
      latch.generation = some job.generation → latch.refreshedAt = none →
      db.job.lookup job.version = some row → row.generation = job.generation →
      row.heldBy job = true → row.leaseExpiresAt.any (now < ·) = true →
      Completion now job db { db with
        latch := db.latch.insert job.version { latch with refreshedAt := some now, updatedAt := now }
        job := db.job.insert job.version
          { row.unlease now with state := .completed, completedAt := some now } }

/-! ## Signals -/

theorem lockCursor_writes (now : Time) (grant : Option Token) (db : RefreshDb) :
    Writes now grant db (lockCursor now db).2 := by
  unfold lockCursor
  split
  · exact .refl
  · next h => exact .single (.openCursor h)

theorem lockCursor_cursor (now : Time) (db : RefreshDb) :
    (lockCursor now db).2.cursor = some (lockCursor now db).1 := by
  unfold lockCursor
  split
  · next h => exact h
  · rfl

/-- The loop variables of a reconciliation are the cursor columns. -/
def Reconciling.Tracks (st : Reconciling) : Prop :=
  ∃ updatedAt, st.db.cursor = some ⟨st.generation, st.current, updatedAt⟩

theorem lockCursor_tracks (now : Time) (db : RefreshDb) :
    Reconciling.Tracks ⟨(lockCursor now db).1.generation, (lockCursor now db).1.version,
      (lockCursor now db).2⟩ :=
  ⟨_, lockCursor_cursor now db⟩

theorem upsertJob_writes {version : String} {generation : Nat} {c : Cursor} {fresh : Bool}
    (hc : db.cursor = some c) (hversion : c.version = some version)
    (hgeneration : c.generation = generation)
    (h : upsertJob now version generation db = .ok (fresh, db')) :
    Writes now grant db db' ∧ db'.cursor = db.cursor := by
  subst hgeneration
  unfold upsertJob at h
  split at h
  · cases h; exact ⟨.refl, rfl⟩
  · next habsent =>
    split at h
    · cases h
    · next hunique =>
      split at h
      · cases h
      · next hkey =>
        cases h
        refine ⟨.single ?_, rfl⟩
        simp only [Option.isSome_iff_ne_none, ne_eq, not_not] at habsent
        simp only [bne_iff_ne, ne_eq, not_not, Option.bind_eq_some_iff] at hkey
        obtain ⟨row, hrow, hgeneration⟩ := hkey
        refine .schedule hc hversion habsent ?_ hrow hgeneration
        intro v job hjob hsame
        apply hunique
        simp only [List.any_eq_true, beq_iff_eq]
        exact ⟨(v, job), (db.job.mem_rows v job).2 hjob, hsame⟩

theorem accept_writes (now : Time) (grant : Option Token) {version : String} {st : Reconciling} (htracks : st.Tracks)
    (hversion : orderedVersion version = .ok version) :
    Writes now grant st.db (st.accept now version).db ∧ (st.accept now version).Tracks := by
  obtain ⟨updatedAt, hc⟩ := htracks
  unfold Reconciling.accept
  split
  · next hnewer => exact ⟨.single (.advance hc hversion hnewer), now, rfl⟩
  · exact ⟨.refl, updatedAt, hc⟩

theorem supersedes_iff {version : String} {st : Reconciling} :
    st.supersedes version = true ↔ ∃ current, st.current = some current ∧ version < current := by
  unfold Reconciling.supersedes
  cases st.current with
  | none => simp
  | some current =>
    rw [Option.any_some, decide_eq_true_iff]
    constructor
    · intro hlt
      exact ⟨current, rfl, hlt⟩
    · rintro ⟨_, hsame, hlt⟩
      cases hsame
      exact hlt

theorem accept_superseded (now : Time) {version : String} {st : Reconciling}
    (h : st.supersedes version = true) : st.accept now version = st := by
  obtain ⟨current, hcurrent, hlt⟩ := supersedes_iff.1 h
  unfold Reconciling.accept
  rw [hcurrent, Option.all_some, if_neg]
  rw [decide_eq_true_iff]
  exact not_lt.2 hlt.le

/-- After `accept` the cursor stands at the version, unless it was superseded. -/
theorem accept_current (now : Time) {version : String} {st : Reconciling}
    (h : st.supersedes version = false) : (st.accept now version).current = some version := by
  unfold Reconciling.accept
  unfold Reconciling.supersedes at h
  split
  · rfl
  · next hnot =>
    cases hcurrent : st.current with
    | none => simp [hcurrent] at hnot
    | some current =>
      rw [hcurrent, Option.any_some, decide_eq_false_iff_not, not_lt] at h
      rw [hcurrent, Option.all_some, decide_eq_true_iff, not_lt] at hnot
      rw [le_antisymm h hnot]

theorem reconcileRow_writes {st st' : Reconciling} {row : String × LatchRow} (htracks : st.Tracks)
    (h : reconcileRow now required st row = .ok st') :
    Writes now grant st.db st'.db ∧ st'.Tracks := by
  unfold reconcileRow at h
  split at h
  · cases h; exact ⟨.refl, htracks⟩
  · obtain ⟨version, hversion, h⟩ := bind_eq_ok.1 h
    have hversion := orderedVersion_idem hversion
    split at h
    · cases h; exact ⟨.refl, htracks⟩
    · next hsuperseded =>
      have hcurrent := accept_current now (by simpa using hsuperseded)
      obtain ⟨haccept, updatedAt, hc⟩ := accept_writes now grant htracks hversion
      have hassign : Write now grant (st.accept now version).db
          (assignGeneration now (st.accept now version).generation version
            (st.accept now version).db) := .assign hc hcurrent
      have hc' : (assignGeneration now (st.accept now version).generation version
          (st.accept now version).db).cursor =
            some ⟨(st.accept now version).generation, (st.accept now version).current, updatedAt⟩ := hc
      split at h
      · obtain ⟨⟨fresh, db'⟩, hjob, h⟩ := bind_eq_ok.1 h
        cases h
        obtain ⟨hschedule, hcursor⟩ := upsertJob_writes hc' hcurrent rfl hjob
        exact ⟨(haccept.tail hassign).trans hschedule, updatedAt, hcursor.trans hc'⟩
      · cases h
        exact ⟨haccept.tail hassign, updatedAt, hc⟩

theorem reconcileLegacy_writes {st : Reconciling} (h : reconcileLegacy now required db = .ok st) :
    Writes now grant db st.db ∧ st.Tracks := by
  refine foldlM_invariant (fun st => Writes now grant db st.db ∧ st.Tracks) ?_
    ⟨lockCursor_writes now grant db, lockCursor_tracks now db⟩ h
  rintro st row st' _ ⟨hwrites, htracks⟩ hrow
  obtain ⟨hnext, htracks⟩ := reconcileRow_writes htracks hrow
  exact ⟨hwrites.trans hnext, htracks⟩

theorem reconcileLegacyLatches_writes (h : reconcileLegacyLatches now required db = .ok db') :
    Writes now grant db db' := by
  obtain ⟨st, hst, rfl⟩ := map_eq_ok.1 h
  exact (reconcileLegacy_writes hst).1

theorem Reconciling.signal_writes {version : String} {st : Reconciling} (dataType : DataType)
    (htracks : st.Tracks) (hversion : orderedVersion version = .ok version) :
    Writes now grant st.db (st.signal now version dataType).2 := by
  obtain ⟨haccept, updatedAt, hc⟩ := accept_writes now grant htracks hversion
  refine haccept.tail ?_
  unfold Reconciling.signal
  cases hsuperseded : st.supersedes version with
  | true =>
    obtain ⟨current, hcurrent, hlt⟩ := supersedes_iff.1 hsuperseded
    have hwrite : Write now grant _ _ := .signal dataType hc
      (by rw [accept_superseded now hsuperseded]; exact hcurrent) hlt.le hversion
    rw [if_pos hlt] at hwrite
    exact hwrite
  | false =>
    have hwrite : Write now grant _ _ := .signal dataType hc
      (accept_current now hsuperseded) le_rfl hversion
    rw [if_neg (lt_irrefl version)] at hwrite
    exact hwrite

/-- A signal that commits either only marks the latch, or also finds a job for the
    version the cursor stands at. -/
theorem acceptSignal_cases {version : String} {dataType : DataType} {st : Reconciling}
    {result : DurableSignal}
    (h : acceptSignal now version dataType required st = .ok (result, db')) :
    (db' = (st.signal now version dataType).2 ∧
      (st.supersedes version = true ∨ (st.signal now version dataType).1.refreshedAt ≠ none ∨
        ¬required ⊆ (st.signal now version dataType).1.signals)) ∨
    (st.supersedes version = false ∧ (st.signal now version dataType).1.refreshedAt = none ∧
      ∃ fresh, upsertJob now version (st.accept now version).generation
        (st.signal now version dataType).2 = .ok (fresh, db')) := by
  unfold acceptSignal at h
  dsimp only at h
  split at h
  · next hcomplete =>
    simp only [Bool.and_eq_true, Bool.not_eq_true', Option.isSome_eq_false_iff,
      Option.isNone_iff_eq_none] at hcomplete
    split at h
    · cases h
    · obtain ⟨⟨fresh, db''⟩, hjob, h⟩ := map_eq_ok.1 h
      cases h
      exact .inr ⟨hcomplete.1.1, hcomplete.1.2, fresh, hjob⟩
  · next hincomplete =>
    cases h
    refine .inl ⟨rfl, ?_⟩
    cases hsuperseded : st.supersedes version with
    | true => exact .inl rfl
    | false =>
      cases hrefreshed : (st.signal now version dataType).1.refreshedAt with
      | some at' => exact .inr (.inl (by simp))
      | none => exact .inr (.inr (by simpa [hsuperseded, hrefreshed] using hincomplete))

theorem acceptSignal_writes {version : String} {dataType : DataType} {st : Reconciling}
    {result : DurableSignal} (htracks : st.Tracks)
    (hversion : orderedVersion version = .ok version)
    (h : acceptSignal now version dataType required st = .ok (result, db')) :
    Writes now grant st.db db' := by
  have hsignal : Writes now grant _ _ := Reconciling.signal_writes dataType htracks hversion
  obtain ⟨rfl, _⟩ | ⟨hsuperseded, _, fresh, hjob⟩ := acceptSignal_cases h
  · exact hsignal
  · obtain ⟨_, updatedAt, hc⟩ := accept_writes now grant htracks hversion
    have hc' : (st.signal now version dataType).2.cursor = some ⟨(st.accept now version).generation,
      (st.accept now version).current, updatedAt⟩ := hc
    exact hsignal.trans (upsertJob_writes hc' (accept_current now hsuperseded) rfl hjob).1

theorem recordDurableSignal_eq_ok {versionValue : String} {dataType : DataType}
    {result : DurableSignal × RefreshDb} :
    recordDurableSignal now versionValue dataType required db = .ok result ↔
      ∃ version st, orderedVersion versionValue = .ok version ∧ dataType ∈ required ∧
        reconcileLegacy now required db = .ok st ∧
        acceptSignal now version dataType required st = .ok result := by
  unfold recordDurableSignal
  rw [bind_eq_ok]
  by_cases hmem : dataType ∈ required
  · simp only [hmem, not_true_eq_false, if_false, bind_eq_ok, true_and]
    constructor
    · rintro ⟨version, hversion, st, hst, h⟩
      exact ⟨version, st, hversion, hst, h⟩
    · rintro ⟨version, st, hversion, hst, h⟩
      exact ⟨version, hversion, st, hst, h⟩
  · simp only [hmem, not_false_eq_true, if_true, false_and, and_false, exists_false, iff_false,
      not_exists, not_and]
    intro version _ h
    cases h

theorem recordDurableSignal_writes {versionValue : String} {dataType : DataType}
    {result : DurableSignal}
    (h : recordDurableSignal now versionValue dataType required db = .ok (result, db')) :
    Writes now grant db db' := by
  obtain ⟨version, st, hversion, _, hst, haccept⟩ := recordDurableSignal_eq_ok.1 h
  obtain ⟨hreconcile, htracks⟩ := reconcileLegacy_writes hst
  exact hreconcile.trans (acceptSignal_writes htracks (orderedVersion_idem hversion) haccept)

/-! ## The worker -/

theorem dueJob_mem {locked : String → Bool} {version : String} {row : JobRow}
    (h : dueJob now locked db = some (version, row)) :
    db.job.lookup version = some row ∧ row.due now = true := by
  have hmem := List.mem_of_mem_head? (Option.mem_def.2 h)
  rw [List.mem_insertionSort, List.mem_filter, Table.mem_rows, Bool.and_eq_true] at hmem
  exact ⟨hmem.1, hmem.2.1⟩

theorem JobRow.live_of_due {row : JobRow} (h : row.due now = true) : row.state.live = true := by
  unfold JobRow.due JobRow.expiredLease at h
  cases hstate : row.state <;> simp_all [JobState.live]

theorem claimDueJob_writes (now : Time) (owner : String) (token : Token) (locked : String → Bool)
    (db : RefreshDb) :
    Writes now (some token) db (claimDueJob now owner token locked db).2 := by
  have hlock := lockCursor_writes now (some token) db
  have hc := lockCursor_cursor now db
  unfold claimDueJob
  split
  next cursor db₁ heq =>
  rw [heq] at hlock hc
  split
  · exact hlock
  · split
    · exact hlock
    · next version row hdue =>
      obtain ⟨hrow, hdue⟩ := dueJob_mem hdue
      have hlive := JobRow.live_of_due hdue
      split
      · next hgeneration =>
        refine hlock.tail (.supersede hrow hlive ?_)
        rw [RefreshDb.current, hc]
        simp only [Option.map_some, ne_eq, Option.some.injEq, Prod.mk.injEq, not_and]
        intro hsame
        exact absurd hsame.symm hgeneration
      · next hgeneration =>
        split
        · next hleased => exact hlock.tail (.retry _ _ hrow hleased)
        · exact hlock.tail (.lease owner rfl hc hrow hlive (not_not.1 hgeneration))

theorem ownsLease_iff {job : ClaimedJob} :
    ownsLease now job db = true ↔ ∃ row, db.job.lookup job.version = some row ∧
      row.heldBy job = true ∧ row.leaseExpiresAt.any (now < ·) = true := by
  simp [ownsLease, Option.any_eq_true]

theorem JobRow.leased_of_heldBy {job : ClaimedJob} {row : JobRow} (h : row.heldBy job = true) :
    row.state = .leased := by
  simp only [JobRow.heldBy, Bool.and_eq_true, beq_iff_eq] at h
  exact h.1.1

theorem heartbeat_writes (now : Time) (job : ClaimedJob) (db : RefreshDb) :
    Writes now grant db (heartbeat now job db).2 := by
  unfold heartbeat
  split
  · next howns =>
    obtain ⟨row, hrow, hheld, hexpires⟩ := ownsLease_iff.1 howns
    rw [Table.update_at db.job
      (fun row => { row with leaseExpiresAt := some (now + leaseSeconds), updatedAt := now }) hrow]
    exact .single (.renew hrow hheld hexpires)
  · exact .refl

theorem beforeRefresh_eq_ok {job : ClaimedJob} :
    beforeRefresh now job db = .ok () ↔ db.isCurrent job = true ∧ ownsLease now job db = true := by
  unfold beforeRefresh
  cases db.isCurrent job <;> cases ownsLease now job db <;> simp

/-- The late fence lets a pass commit only through a `Completion`. -/
theorem beforeCommit_completion {job : ClaimedJob} (h : beforeCommit now job db = .ok db') :
    Completion now job db db' := by
  unfold beforeCommit at h
  split at h
  · cases h
  · next hfence =>
    simp only [Bool.or_eq_true, Bool.not_eq_true', not_or, Bool.not_eq_false] at hfence
    obtain ⟨hcurrent, howns⟩ := hfence
    obtain ⟨row, hrow, hheld, hexpires⟩ := ownsLease_iff.1 howns
    split at h
    · cases h
    · next latch hlatch =>
      split at h
      · cases h
      · next hstamp =>
        simp only [LatchRow.unstamped, Bool.not_eq_true', Bool.not_eq_false, Bool.and_eq_true,
          beq_iff_eq, Option.isNone_iff_eq_none] at hstamp
        rw [hrow] at h
        dsimp only at h
        split at h
        · next hclaim =>
          cases h
          exact .mk hcurrent hlatch hstamp.1 hstamp.2 hrow hclaim.1 hheld hexpires
        · cases h

/-- The settlement of a failed pass, when the claim's generation is the one of its
    job row. -/
theorem markAfterFailure_writes {job : ClaimedJob} (error : String)
    (hmatch : ∀ row, db.job.lookup job.version = some row → row.generation = job.generation) :
    Writes now grant db (markAfterFailure now job error db) := by
  by_cases hheld : ∃ row, db.job.lookup job.version = some row ∧ row.heldBy job = true
  · obtain ⟨row, hrow, hheld⟩ := hheld
    have hleased := JobRow.leased_of_heldBy hheld
    let settled : JobRow :=
      if db.isCurrent job then
        row.retryAfter now (backoff job.attemptCount) (String.ofList (error.toList.take 1024))
      else row.supersede now
    have hmark : markAfterFailure now job error db =
        { db with job := db.job.insert job.version settled } := by
      unfold markAfterFailure
      congr 1
      apply Table.ext
      intro version
      rw [Table.lookup_update, Table.lookup_insert]
      by_cases hversion : version = job.version
      · subst hversion
        simp [hrow, hheld, settled]
      · simp [hversion]
    rw [hmark]
    cases hcurrent : db.isCurrent job with
    | true =>
      have hsettled : settled = row.retryAfter now _ _ := if_pos hcurrent
      rw [hsettled]
      exact .single (.retry _ _ hrow hleased)
    | false =>
      have hsettled : settled = row.supersede now := if_neg (by simp [hcurrent])
      rw [hsettled]
      refine .single (.supersede hrow (by rw [hleased]; rfl) ?_)
      rw [hmatch row hrow]
      intro hsame
      simp [RefreshDb.isCurrent, hsame] at hcurrent
  · have hmark : markAfterFailure now job error db = db := by
      unfold markAfterFailure
      have hjob : (db.job.update fun version row =>
          if version = job.version ∧ row.heldBy job then
            if db.isCurrent job then
              row.retryAfter now (backoff job.attemptCount) (String.ofList (error.toList.take 1024))
            else row.supersede now
          else row) = db.job := by
        apply Table.ext
        intro version
        rw [Table.lookup_update]
        cases hrow : db.job.lookup version with
        | none => rfl
        | some row =>
          rw [Option.map_some, if_neg]
          rintro ⟨rfl, hrowHeld⟩
          exact hheld ⟨row, hrow, hrowHeld⟩
      rw [hjob]
    rw [hmark]

end Tableinator.Durable
