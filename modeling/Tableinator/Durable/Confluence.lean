import Tableinator.Durable.Obligation

/-! # Order and duplication of signals

With no worker running, what the tables say after any number of signals depends on
the set of signalled pairs alone: the cursor is at the greatest version, every latch
holds exactly its signals, and the greatest version has a live job once it is
complete. -/

namespace Tableinator.Durable

open Relational

variable {now : Time} {db db' : RefreshDb} {v : String}

/-- One call of `record_durable_signal`, at its instant. -/
structure SignalCall where
  now : Time
  version : String
  dataType : DataType

def recordSignal (db : RefreshDb) (call : SignalCall) : Except DurableError RefreshDb :=
  (recordDurableSignal call.now call.version call.dataType dataTypes db).map Prod.snd

/-- Calls made one after another. -/
def recordSignals (calls : List SignalCall) (db : RefreshDb) : Except DurableError RefreshDb :=
  calls.foldlM recordSignal db

/-- The calls name this pair. -/
def Signalled (calls : List SignalCall) (v : String) (dataType : DataType) : Prop :=
  ∃ call ∈ calls, call.version = v ∧ call.dataType = dataType

/-! ## A reconciliation with nothing to do -/

/-- Rows without a generation are stragglers behind the cursor. -/
def Stragglers (db : RefreshDb) : Prop :=
  ∀ v row, db.latch.lookup v = some row → row.generation = none →
    db.Past v ∧ orderedVersion v = .ok v

theorem reconcileRow_straggler {st : Reconciling} {row : LatchRow} (htracks : st.Tracks)
    (hpast : st.db.Past v) (hvalid : orderedVersion v = .ok v) :
    reconcileRow now dataTypes st (v, row) = .ok st := by
  obtain ⟨u, hu, hlt⟩ := hpast
  have hsuperseded : st.supersedes v = true :=
    supersedes_iff.2 ⟨u, (tracks_generation htracks).2.symm.trans hu, hlt⟩
  have htext := (orderedVersion_eq_ok.1 hvalid).2.1
  simp [reconcileRow, htext, hvalid, hsuperseded, bind, Except.bind, pure, Except.pure]

theorem reconcileLegacy_stragglers (hstragglers : Stragglers db) :
    reconcileLegacy now dataTypes db = .ok ⟨(lockCursor now db).1.generation,
      (lockCursor now db).1.version, (lockCursor now db).2⟩ := by
  have hkeeps := (lockCursor_writes now none db).keeps
  have hloop : ∀ rows : List (String × LatchRow), (∀ v row, (v, row) ∈ rows →
      db.Past v ∧ orderedVersion v = .ok v) →
      rows.foldlM (reconcileRow now dataTypes) ⟨(lockCursor now db).1.generation,
        (lockCursor now db).1.version, (lockCursor now db).2⟩ =
      .ok ⟨(lockCursor now db).1.generation, (lockCursor now db).1.version,
        (lockCursor now db).2⟩ := by
    intro rows
    induction rows with
    | nil =>
      intro _
      rfl
    | cons head rows ih =>
      intro hrows
      obtain ⟨v, row⟩ := head
      obtain ⟨hpast, hvalid⟩ := hrows v row List.mem_cons_self
      rw [List.foldlM_cons, reconcileRow_straggler (lockCursor_tracks now db) (hkeeps.past hpast)
        hvalid]
      exact ih fun v row hmem => hrows v row (List.mem_cons_of_mem _ hmem)
  have hrows : ∀ v row, (v, row) ∈ legacyRows (lockCursor now db).2 →
      db.Past v ∧ orderedVersion v = .ok v := by
    intro v row hmem
    simp only [legacyRows, List.mem_filter, Table.mem_rows, lockCursor_latch,
      Option.isNone_iff_eq_none] at hmem
    exact hstragglers v row hmem.1 hmem.2
  exact hloop _ hrows

/-! ## The job of the accepted version -/

/-- In ordered tables `_upsert_job` breaks no key. -/
theorem upsertJob_succeeds (now : Time) {c : Cursor} (hordered : Ordered db) (hc : db.cursor = some c)
    (hversion : c.version = some v) (hlatch : db.latchGeneration v = some c.generation) :
    ∃ fresh db', upsertJob now v c.generation db = .ok (fresh, db') := by
  have hcurrent : db.version = some v := by simp [RefreshDb.version, hc, hversion]
  have hgeneration : db.generation = c.generation := by simp [RefreshDb.generation, hc]
  unfold upsertJob
  cases hjob : db.job.lookup v with
  | some job => exact ⟨false, db, by simp⟩
  | none =>
    have hunique : (db.job.rows.any fun row => row.2.generation == c.generation) = false := by
      rw [List.any_eq_false]
      rintro ⟨v', job⟩ hmem
      rw [Table.mem_rows] at hmem
      simp only [beq_iff_eq]
      intro hsame
      -- A job of the cursor's generation is the job of the cursor's version.
      have hlatch' := hordered.jobLatch v' job hmem
      have hversion' := (hordered.current v' _ hlatch').1 (hsame.trans hgeneration.symm)
      rw [hcurrent] at hversion'
      cases hversion'
      rw [hjob] at hmem
      cases hmem
    unfold RefreshDb.latchGeneration at hlatch
    exact ⟨true, { db with job := db.job.insert v (.fresh now c.generation) },
      by simp [hunique, hlatch]⟩

theorem upsertJob_lookup {generation : Nat} {fresh : Bool} {v' : String} {job : JobRow}
    (h : upsertJob now v generation db = .ok (fresh, db')) (hjob : db'.job.lookup v' = some job) :
    db.job.lookup v' = some job ∨ (v' = v ∧ job = .fresh now generation) := by
  unfold upsertJob at h
  split at h
  · cases h
    exact .inl hjob
  · split at h
    · cases h
    · split at h
      · cases h
      · cases h
        rw [Table.lookup_insert] at hjob
        split at hjob
        · next hv =>
          cases hjob
          exact .inr ⟨hv, rfl⟩
        · exact .inl hjob

theorem accept_liveJob {version : String} {st : Reconciling} {job : JobRow}
    (hjob : (st.accept now version).db.job.lookup v = some job) (hlive : job.state.live = true) :
    st.db.job.lookup v = some job := by
  unfold Reconciling.accept at hjob
  split at hjob
  · rw [advanceCursor_job] at hjob
    obtain ⟨row, hrow, rfl⟩ := Option.map_eq_some_iff.1 hjob
    split at hlive
    · cases hlive
    · next hkept =>
      rw [if_neg hkept]
      exact hrow
  · exact hjob

/-! ## One more signal -/

theorem acceptSignal_succeeds (now : Time) {version : String} (dataType : DataType) {st : Reconciling}
    (hordered : Ordered st.db) (htracks : st.Tracks)
    (hversion : orderedVersion version = .ok version) :
    ∃ result, acceptSignal now version dataType dataTypes st = .ok result := by
  unfold acceptSignal
  dsimp only
  split
  · next hcomplete =>
    simp only [Bool.and_eq_true, Bool.not_eq_true'] at hcomplete
    have hgeneration := signal_generation now dataType hordered htracks hversion hcomplete.1.1
    rw [if_neg (not_not.2 hgeneration)]
    obtain ⟨_, updatedAt, hc⟩ := accept_writes now none htracks hversion
    have hwrites : Writes now none st.db _ := Reconciling.signal_writes dataType htracks hversion
    obtain ⟨fresh, db', hjob⟩ := upsertJob_succeeds now (hwrites.ordered hordered)
      (c := ⟨_, _, updatedAt⟩) hc (accept_current now hcomplete.1.1)
      (by simp [RefreshDb.latchGeneration, signal_lookup_self, hgeneration])
    exact ⟨_, by rw [hjob]; rfl⟩
  · exact ⟨_, rfl⟩

/-- What the tables say after a list of calls. -/
structure Confluent (calls : List SignalCall) (db : RefreshDb) : Prop where
  ordered : Ordered db
  settled : Settled dataTypes db
  reached : ∀ call ∈ calls, ∃ u, db.version = some u ∧ call.version ≤ u
  cursor : ∀ u, db.version = some u → ∃ t, Signalled calls u t
  latched : ∀ v t, Signalled calls v t → ∃ row, db.latch.lookup v = some row
  placed : ∀ v row, db.latch.lookup v = some row →
    orderedVersion v = .ok v ∧ (row.generation.isSome ∨ db.Past v)
  latch : ∀ v row, db.latch.lookup v = some row → row.purgeVetoed = ∅ ∧ row.refreshedAt = none ∧
    ∀ t, t ∈ row.signals ↔ Signalled calls v t
  signalled : ∀ {v row}, db.latch.lookup v = some row → ∃ t, Signalled calls v t
  job : ∀ v job, db.job.lookup v = some job → job.state.live = true →
    (∀ t, Signalled calls v t) ∧ ∃ created generation, job = .fresh created generation

theorem confluent_empty : Confluent [] .empty where
  ordered := Legacy.ordered ⟨rfl, fun _ => rfl, by simp [RefreshDb.empty]⟩
  settled := by
    intro v row hrow
    cases hrow
  reached := by simp
  cursor := by
    intro u hu
    cases hu
  latched := by simp [Signalled]
  placed := by
    intro v row hrow
    cases hrow
  latch := by
    intro v row hrow
    cases hrow
  signalled := by
    intro v row hrow
    cases hrow
  job := by
    intro v job hjob
    cases hjob

theorem signalled_append {calls : List SignalCall} {call : SignalCall} {t : DataType} :
    Signalled (calls ++ [call]) v t ↔
      Signalled calls v t ∨ (call.version = v ∧ call.dataType = t) := by
  simp [Signalled, or_and_right, exists_or]

theorem Confluent.stragglers {calls : List SignalCall} (h : Confluent calls db) :
    Stragglers db := by
  intro v row hrow hnone
  obtain ⟨hvalid, hsome | hpast⟩ := h.placed v row hrow
  · rw [hnone] at hsome
    cases hsome
  · exact ⟨hpast, hvalid⟩

/-- The loop variables of a signal that finds nothing to reconcile. -/
def lockedState (now : Time) (db : RefreshDb) : Reconciling :=
  ⟨(lockCursor now db).1.generation, (lockCursor now db).1.version, (lockCursor now db).2⟩

theorem lockedState_version (now : Time) (db : RefreshDb) :
    (lockedState now db).db.version = db.version := by
  cases hc : db.cursor with
  | none => simp [lockedState, lockCursor, RefreshDb.version, hc]
  | some c => simp [lockedState, lockCursor, RefreshDb.version, hc]

theorem acceptSignal_version {version : String} {dataType : DataType} {st : Reconciling}
    {result : DurableSignal} (htracks : st.Tracks) (hversion : orderedVersion version = .ok version)
    (h : acceptSignal now version dataType dataTypes st = .ok (result, db')) :
    db'.version = if st.supersedes version then st.db.version else some version := by
  have hcursor : db'.cursor = (st.accept now version).db.cursor := by
    rcases acceptSignal_cases h with ⟨rfl, _⟩ | ⟨_, _, fresh, hjob⟩
    · rfl
    · exact (upsertJob_job hjob).2.2
  obtain ⟨_, htracks'⟩ := accept_writes now none htracks hversion
  have hcurrent := (tracks_generation htracks').2
  unfold RefreshDb.version at hcurrent ⊢
  rw [hcursor, hcurrent]
  cases hsuperseded : st.supersedes version with
  | true =>
    rw [accept_superseded now hsuperseded]
    exact (tracks_generation htracks).2.symm
  | false => exact accept_current now hsuperseded

/-- The live jobs after a signal: those that were live, and one of the version just
    completed. -/
theorem acceptSignal_liveJob {version : String} {dataType : DataType} {st : Reconciling}
    {result : DurableSignal} {job : JobRow}
    (h : acceptSignal now version dataType dataTypes st = .ok (result, db'))
    (hjob : db'.job.lookup v = some job) (hlive : job.state.live = true) :
    st.db.job.lookup v = some job ∨
      (v = version ∧ dataTypes ⊆ (st.signal now version dataType).1.signals ∧
        ∃ generation, job = .fresh now generation) := by
  unfold acceptSignal at h
  dsimp only at h
  split at h
  · next hcomplete =>
    simp only [Bool.and_eq_true, decide_eq_true_iff] at hcomplete
    split at h
    · cases h
    · obtain ⟨⟨fresh, db''⟩, hupsert, h⟩ := map_eq_ok.1 h
      cases h
      rcases upsertJob_lookup hupsert hjob with hold | ⟨hv, hfresh⟩
      · exact .inl (accept_liveJob hold hlive)
      · exact .inr ⟨hv, hcomplete.2, _, hfresh⟩
  · cases h
    exact .inl (accept_liveJob hjob hlive)

/-- The row a signal leaves, from the row it found. -/
theorem signal_row (now : Time) (version : String) (dataType : DataType) (st : Reconciling) :
    (st.signal now version dataType).1.signals =
        insert dataType (((st.db.latch.lookup version).map LatchRow.signals).getD ∅) ∧
      (st.signal now version dataType).1.purgeVetoed =
        ((st.db.latch.lookup version).map LatchRow.purgeVetoed).getD ∅ ∧
      (st.signal now version dataType).1.refreshedAt =
        (st.db.latch.lookup version).bind LatchRow.refreshedAt := by
  rw [← accept_latch now version st]
  unfold Reconciling.signal upsertSignal
  dsimp only
  cases (st.accept now version).db.latch.lookup version with
  | none => exact ⟨rfl, rfl, rfl⟩
  | some row => exact ⟨rfl, rfl, rfl⟩

/-- Rows of other versions are untouched; the row of this one gained the signal. -/
theorem acceptSignal_row {version : String} {dataType : DataType} {st : Reconciling}
    {result : DurableSignal} {row : LatchRow}
    (h : acceptSignal now version dataType dataTypes st = .ok (result, db'))
    (hlookup : db'.latch.lookup v = some row) :
    (v ≠ version ∧ st.db.latch.lookup v = some row) ∨
      (v = version ∧ row = (st.signal now version dataType).1) := by
  rw [acceptSignal_latch h] at hlookup
  by_cases hv : v = version
  · subst hv
    rw [signal_lookup_self] at hlookup
    cases hlookup
    exact .inr ⟨rfl, rfl⟩
  · rw [signal_lookup_of_ne now dataType st hv] at hlookup
    exact .inl ⟨hv, hlookup⟩

/-- The row a further signal leaves holds the types signalled so far, and nothing else. -/
theorem Confluent.signal_row {calls : List SignalCall} {version : String} {dataType : DataType}
    {st : Reconciling} (h : Confluent calls db) (hfound : st.db.latch = db.latch) (now : Time) :
    (st.signal now version dataType).1.purgeVetoed = ∅ ∧
      (st.signal now version dataType).1.refreshedAt = none ∧
      ∀ t, t ∈ (st.signal now version dataType).1.signals ↔
        Signalled (calls ++ [⟨now, version, dataType⟩]) version t := by
  obtain ⟨hsignals, hvetoed, hstamp⟩ := Durable.signal_row now version dataType st
  rw [hsignals, hvetoed, hstamp, hfound]
  cases hprior : db.latch.lookup version with
  | none =>
    refine ⟨rfl, rfl, fun t => ?_⟩
    have hnone : ¬Signalled calls version t := by
      intro hsignalled
      obtain ⟨row, hrow⟩ := h.latched version t hsignalled
      rw [hprior] at hrow
      cases hrow
    rw [signalled_append]
    simp [hnone, eq_comm]
  | some row =>
    obtain ⟨hvetoed, hstamp, hsignals⟩ := h.latch version row hprior
    refine ⟨hvetoed, hstamp, fun t => ?_⟩
    rw [Option.map_some, Option.getD_some, Finset.mem_insert, hsignals t, signalled_append, or_comm]
    simp [eq_comm]

theorem Confluent.step {calls : List SignalCall} {call : SignalCall} (h : Confluent calls db)
    (hvalid : orderedVersion call.version = .ok call.version) :
    ∃ db', recordSignal db call = .ok db' ∧ Confluent (calls ++ [call]) db' := by
  obtain ⟨now, version, dataType⟩ := call
  dsimp only at hvalid
  let st := lockedState now db
  have hreconcile : reconcileLegacy now dataTypes db = .ok st :=
    reconcileLegacy_stragglers h.stragglers
  have hsweep := reconcileLegacy_sweeps h.ordered h.settled hreconcile
  obtain ⟨⟨result, db'⟩, haccept⟩ := acceptSignal_succeeds now dataType hsweep.ordered hsweep.tracks
    hvalid
  have hrecord : recordDurableSignal now version dataType dataTypes db = .ok (result, db') :=
    recordDurableSignal_eq_ok.2 ⟨version, st, hvalid, mem_dataTypes _, hreconcile, haccept⟩
  have hwrites : Writes now none db db' := recordDurableSignal_writes hrecord
  have hkeeps := hwrites.keeps
  have hfound : st.db.latch = db.latch := lockCursor_latch now db
  have hfoundJob : st.db.job = db.job := lockCursor_job now db
  have hversion := acceptSignal_version hsweep.tracks hvalid haccept
  rw [lockedState_version] at hversion
  obtain ⟨hvetoed, hstamp, hsignals⟩ := @Confluent.signal_row db calls version dataType st h hfound now
  have hself : db'.latch.lookup version = some (st.signal now version dataType).1 :=
    acceptSignal_latch haccept ▸ signal_lookup_self now version dataType st
  refine ⟨db', by simp [recordSignal, hrecord, Except.map], ?_⟩
  -- each field of the invariant, for the versions of one more signal
  constructor
  case ordered => exact hwrites.ordered h.ordered
  case settled => exact acceptSignal_settled hsweep hvalid haccept
  case reached =>
    intro call hmem
    rcases List.mem_append.1 hmem with hold | hnew
    · exact hkeeps.cursor.version_le (h.reached call hold)
    · cases List.mem_singleton.1 hnew
      -- a superseded signal leaves the cursor, any other moves it to its own version
      cases hsuperseded : st.supersedes version with
      | true =>
        obtain ⟨u, hu, hlt⟩ := past_of_supersedes hsweep.tracks hsuperseded
        rw [lockedState_version] at hu
        exact ⟨u, by rw [hversion, if_pos hsuperseded, hu], hlt.le⟩
      | false => exact ⟨version, by rw [hversion, if_neg (by simp [hsuperseded])], le_rfl⟩
  case cursor =>
    intro u hu
    rw [hversion] at hu
    split at hu
    · obtain ⟨t, ht⟩ := h.cursor u hu
      exact ⟨t, signalled_append.2 (.inl ht)⟩
    · cases hu
      exact ⟨dataType, signalled_append.2 (.inr ⟨rfl, rfl⟩)⟩
  case latched =>
    intro v t hsignalled
    rcases signalled_append.1 hsignalled with hold | ⟨hv, _⟩
    · obtain ⟨row, hrow⟩ := h.latched v t hold
      obtain ⟨row', hrow', _⟩ := hkeeps.latch v row hrow
      exact ⟨row', hrow'⟩
    · dsimp only at hv
      subst hv
      exact ⟨_, hself⟩
  case placed =>
    intro v row hlookup
    rcases acceptSignal_row haccept hlookup with ⟨_, hold⟩ | ⟨rfl, rfl⟩
    · rw [hfound] at hold
      obtain ⟨hv, hsome | hpast⟩ := h.placed v row hold
      · exact ⟨hv, .inl hsome⟩
      · exact ⟨hv, .inr (hkeeps.past hpast)⟩
    · obtain ⟨row, hlookup', _, hplaced⟩ := acceptSignal_recorded hsweep hvalid haccept
      rw [hlookup] at hlookup'
      cases hlookup'
      exact ⟨hvalid, hplaced⟩
  case latch =>
    intro v row hlookup
    rcases acceptSignal_row haccept hlookup with ⟨hv, hold⟩ | ⟨rfl, rfl⟩
    · rw [hfound] at hold
      obtain ⟨hclean, hunstamped, hsignalled⟩ := h.latch v row hold
      refine ⟨hclean, hunstamped, fun t => ?_⟩
      rw [hsignalled t, signalled_append]
      simp [Ne.symm hv]
    · exact ⟨hvetoed, hstamp, hsignals⟩
  case signalled =>
    intro v row hlookup
    rcases acceptSignal_row haccept hlookup with ⟨_, hold⟩ | ⟨rfl, _⟩
    · rw [hfound] at hold
      obtain ⟨t, ht⟩ := h.signalled hold
      exact ⟨t, signalled_append.2 (.inl ht)⟩
    · exact ⟨dataType, signalled_append.2 (.inr ⟨rfl, rfl⟩)⟩
  case job =>
    intro v job hjob hlive
    -- a live job was there before, or this signal was the last its version waited for
    rcases acceptSignal_liveJob haccept hjob hlive with hold | ⟨rfl, hcomplete, generation, hfresh⟩
    · rw [hfoundJob] at hold
      obtain ⟨hall, hfresh⟩ := h.job v job hold hlive
      exact ⟨fun t => signalled_append.2 (.inl (hall t)), hfresh⟩
    · exact ⟨fun t => (hsignals t).1 (hcomplete (mem_dataTypes t)), now, generation, hfresh⟩

theorem Confluent.run {done calls : List SignalCall} (h : Confluent done db)
    (hvalid : ∀ call ∈ calls, orderedVersion call.version = .ok call.version) :
    ∃ db', recordSignals calls db = .ok db' ∧ Confluent (done ++ calls) db' := by
  induction calls generalizing done db with
  | nil => exact ⟨db, rfl, by simpa using h⟩
  | cons call calls ih =>
    obtain ⟨mid, hfirst, hmid⟩ := h.step (hvalid call List.mem_cons_self)
    obtain ⟨db', hrest, hdone⟩ := ih hmid fun call' hmem => hvalid call' (List.mem_cons_of_mem _ hmem)
    refine ⟨db', ?_, by simpa using hdone⟩
    rw [recordSignals, List.foldlM_cons, hfirst]
    exact hrest

/-! ## The tables up to generations, timestamps and dead jobs -/

structure RefreshView where
  version : Option String
  /-- Signals, purge vetoes and whether the row is stamped. -/
  latch : String → Option (Finset DataType × Finset DataType × Bool)
  /-- State, attempts, lease owner, token, epoch and error of a live job. -/
  liveJob : String →
    Option (JobState × Nat × Option String × Option Token × Nat × Option String)

def RefreshDb.view (db : RefreshDb) : RefreshView where
  version := db.version
  latch := fun v => (db.latch.lookup v).map fun row =>
    (row.signals, row.purgeVetoed, row.refreshedAt.isSome)
  liveJob := fun v => ((db.job.lookup v).filter fun row => row.state.live).map fun row =>
    (row.state, row.attemptCount, row.leaseOwner, row.leaseToken, row.leaseEpoch, row.lastError)

/-- The cursor stands at the greatest version signalled. -/
theorem Confluent.version_iff {calls : List SignalCall} (h : Confluent calls db) {u : String} :
    db.version = some u ↔ (∃ t, Signalled calls u t) ∧ ∀ call ∈ calls, call.version ≤ u := by
  constructor
  · intro hu
    refine ⟨h.cursor u hu, fun call hmem => ?_⟩
    obtain ⟨w, hw, hle⟩ := h.reached call hmem
    rw [hu] at hw
    cases hw
    exact hle
  · rintro ⟨⟨t, call, hmem, rfl, rfl⟩, hmax⟩
    obtain ⟨w, hw, hle⟩ := h.reached call hmem
    obtain ⟨t', call', hmem', rfl, _⟩ := h.cursor w hw
    rw [hw, le_antisymm (hmax call' hmem') hle]

/-- The greatest version has a live job exactly when it is complete. -/
theorem Confluent.liveJob_iff {calls : List SignalCall} (h : Confluent calls db) :
    db.LiveJob v ↔ db.version = some v ∧ ∀ t, Signalled calls v t := by
  constructor
  · rintro ⟨job, hjob, hlive⟩
    exact ⟨h.ordered.live_current hjob hlive, (h.job v job hjob hlive).1⟩
  · rintro ⟨hversion, hall⟩
    obtain ⟨row, hrow⟩ := h.latched v .artists (hall .artists)
    obtain ⟨_, hnone, hsignals⟩ := h.latch v row hrow
    have hnotPast : ¬db.Past v := by
      rintro ⟨u, hu, hlt⟩
      rw [hversion] at hu
      cases hu
      exact lt_irrefl v hlt
    have hsome : row.generation.isSome := (h.placed v row hrow).2.resolve_right hnotPast
    have hcomplete : dataTypes ⊆ row.signals := fun t _ => (hsignals t).2 (hall t)
    rcases h.settled v row hrow hsome hcomplete with hstamped | hlive | hpast
    · simp [RefreshDb.refreshed, hrow, hnone] at hstamped
    · exact hlive
    · exact absurd hpast hnotPast

theorem Confluent.latch_view {calls : List SignalCall} (h : Confluent calls db) {row : LatchRow}
    (hrow : db.latch.lookup v = some row) (signals : Finset DataType)
    (hsignals : ∀ t, t ∈ signals ↔ Signalled calls v t) :
    db.view.latch v = some (signals, ∅, false) := by
  obtain ⟨hveto, hnone, hmem⟩ := h.latch v row hrow
  have hsame : row.signals = signals := by
    ext t
    rw [hmem, hsignals]
  simp [RefreshDb.view, hrow, hveto, hnone, hsame]

theorem Confluent.liveJob_view {calls : List SignalCall} (h : Confluent calls db)
    (hlive : db.LiveJob v) : db.view.liveJob v = some (.pending, 0, none, none, 0, none) := by
  obtain ⟨job, hjob, hlive⟩ := hlive
  obtain ⟨_, created, generation, rfl⟩ := h.job v job hjob hlive
  simp [RefreshDb.view, hjob, JobRow.fresh, JobState.live]

theorem liveJob_view_none (h : ¬db.LiveJob v) : db.view.liveJob v = none := by
  unfold RefreshDb.view
  cases hjob : db.job.lookup v with
  | none => simp [hjob]
  | some job =>
    have hdead : job.state.live = false := by
      cases hlive : job.state.live with
      | false => rfl
      | true => exact absurd ⟨job, hjob, hlive⟩ h
    simp [hjob, hdead]

/-- The same pairs give the same view. -/
theorem Confluent.view_eq {calls calls' : List SignalCall} (h : Confluent calls db)
    (h' : Confluent calls' db') (hsame : ∀ v t, Signalled calls v t ↔ Signalled calls' v t) :
    db.view = db'.view := by
  have hmax : ∀ u, (∀ call ∈ calls, call.version ≤ u) ↔ ∀ call ∈ calls', call.version ≤ u := by
    intro u
    constructor
    · intro hle call hmem
      obtain ⟨call', hmem', hv, _⟩ := (hsame _ _).2 ⟨call, hmem, rfl, rfl⟩
      exact hv ▸ hle call' hmem'
    · intro hle call hmem
      obtain ⟨call', hmem', hv, _⟩ := (hsame _ _).1 ⟨call, hmem, rfl, rfl⟩
      exact hv ▸ hle call' hmem'
  have hversion : db.version = db'.version := by
    ext u
    rw [h.version_iff, h'.version_iff, hmax]
    simp only [hsame]
  have hlive : ∀ v, db.LiveJob v ↔ db'.LiveJob v := by
    intro v
    rw [h.liveJob_iff, h'.liveJob_iff, hversion]
    simp only [hsame]
  have hlatch : db.view.latch = db'.view.latch := by
    funext v
    cases hrow : db.latch.lookup v with
    | some row =>
      have hsignals := (h.latch v row hrow).2.2
      rw [h.latch_view hrow row.signals hsignals]
      obtain ⟨t, ht⟩ : ∃ t, Signalled calls v t := h.signalled hrow
      obtain ⟨row', hrow'⟩ := h'.latched v t ((hsame v t).1 ht)
      exact (h'.latch_view hrow' row.signals fun t => (hsignals t).trans (hsame v t)).symm
    | none =>
      cases hrow' : db'.latch.lookup v with
      | none => simp [RefreshDb.view, hrow, hrow']
      | some row' =>
        obtain ⟨t, ht⟩ := h'.signalled hrow'
        obtain ⟨row, hrow''⟩ := h.latched v t ((hsame v t).2 ht)
        rw [hrow] at hrow''
        cases hrow''
  have hjob : db.view.liveJob = db'.view.liveJob := by
    funext v
    by_cases hv : db.LiveJob v
    · rw [h.liveJob_view hv, h'.liveJob_view ((hlive v).1 hv)]
    · rw [liveJob_view_none hv, liveJob_view_none fun hv' => hv ((hlive v).2 hv')]
  show RefreshView.mk db.version db.view.latch db.view.liveJob =
    RefreshView.mk db'.version db'.view.latch db'.view.liveJob
  rw [hversion, hlatch, hjob]

/-- Signals are independent of their order and repetition. -/
theorem signals_are_confluent (calls : List SignalCall)
    (hvalid : ∀ call ∈ calls, orderedVersion call.version = .ok call.version) :
    ∃ db, recordSignals calls .empty = .ok db ∧
      (∀ u, db.version = some u ↔
        (∃ call ∈ calls, call.version = u) ∧ ∀ call ∈ calls, call.version ≤ u) ∧
      (∀ v t, (∃ row, db.latch.lookup v = some row ∧ t ∈ row.signals) ↔ Signalled calls v t) ∧
      ((∃ v, db.LiveJob v) ↔ ∃ u, db.version = some u ∧ ∀ t, Signalled calls u t) ∧
      (∀ v, db.LiveJob v → db.version = some v) ∧
      ∀ calls' db', (∀ call ∈ calls', orderedVersion call.version = .ok call.version) →
        recordSignals calls' .empty = .ok db' →
        (∀ v t, Signalled calls v t ↔ Signalled calls' v t) → db.view = db'.view := by
  obtain ⟨db, hdb, h⟩ := confluent_empty.run hvalid
  rw [List.nil_append] at h
  have hnamed : ∀ u, (∃ t, Signalled calls u t) ↔ ∃ call ∈ calls, call.version = u := by
    intro u
    simp [Signalled]
  refine ⟨db, hdb, ?_, ?_, ?_, ?_, ?_⟩
  · intro u
    rw [h.version_iff, hnamed]
  · intro v t
    constructor
    · rintro ⟨row, hrow, hmem⟩
      exact ((h.latch v row hrow).2.2 t).1 hmem
    · intro hsignalled
      obtain ⟨row, hrow⟩ := h.latched v t hsignalled
      exact ⟨row, hrow, ((h.latch v row hrow).2.2 t).2 hsignalled⟩
  · constructor
    · rintro ⟨v, hlive⟩
      exact ⟨v, h.liveJob_iff.1 hlive⟩
    · rintro ⟨u, hu⟩
      exact ⟨u, h.liveJob_iff.2 hu⟩
  · intro v hlive
    exact (h.liveJob_iff.1 hlive).1
  · intro calls' db' hvalid' hdb' hsame
    obtain ⟨db'', hdb'', h'⟩ := confluent_empty.run hvalid'
    rw [hdb'] at hdb''
    cases hdb''
    rw [List.nil_append] at h'
    exact h.view_eq h' hsame

/-- A newer extraction, a straggler and a repeated signal. -/
theorem signals_are_confluent_straggler :
    ∃ db, recordSignals [⟨0, "20240201", .artists⟩, ⟨1, "20240101", .labels⟩,
        ⟨2, "20240201", .artists⟩] .empty = .ok db ∧ ∀ v, db.LiveJob v → db.version = some v := by
  have hvalid : ∀ call ∈ ([⟨0, "20240201", .artists⟩, ⟨1, "20240101", .labels⟩,
      ⟨2, "20240201", .artists⟩] : List SignalCall),
      orderedVersion call.version = .ok call.version := by
    have hnew : orderedVersion "20240201" = .ok "20240201" := by decide +kernel
    have hold : orderedVersion "20240101" = .ok "20240101" := by decide +kernel
    simp [hnew, hold]
  obtain ⟨db, hdb, _, _, _, honly, _⟩ := signals_are_confluent _ hvalid
  exact ⟨db, hdb, honly⟩

end Tableinator.Durable
