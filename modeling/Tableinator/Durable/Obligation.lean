import Tableinator.Durable.Ordering

/-! # Refresh obligations

A complete latch is owed a refresh until it is stamped, or a newer extraction takes
its place.  `Discharged` says that one of the three holds or a live job carries the
debt; every write keeps it, and the signal transactions establish it before they
commit. -/

namespace Tableinator.Durable

open Relational

variable {now : Time} {grant : Option Token} {required : Finset DataType} {db db' : RefreshDb}
  {v : String}

/-- The cursor has moved beyond a version. -/
def RefreshDb.Past (db : RefreshDb) (v : String) : Prop := ∃ u, db.version = some u ∧ v < u

def RefreshDb.LiveJob (db : RefreshDb) (v : String) : Prop :=
  ∃ job, db.job.lookup v = some job ∧ job.state.live = true

def Discharged (db : RefreshDb) (v : String) : Prop :=
  (db.refreshed v).isSome ∨ db.LiveJob v ∨ db.Past v

/-! ## Every write keeps a discharged obligation -/

theorem Keeps.past (h : Keeps now grant db db') (hpast : db.Past v) : db'.Past v :=
  h.cursor.version_lt hpast

theorem Keeps.refreshed (h : Keeps now grant db db') (hstamped : (db.refreshed v).isSome) :
    (db'.refreshed v).isSome := by
  unfold RefreshDb.refreshed at hstamped ⊢
  cases hrow : db.latch.lookup v with
  | none => simp [hrow] at hstamped
  | some row =>
    obtain ⟨row', hrow', _, hkept, _⟩ := h.latch v row hrow
    rw [hrow, Option.bind_some] at hstamped
    rw [hrow', Option.bind_some, hkept hstamped]
    exact hstamped

/-- A job row written over keeps every live job, if it is live itself. -/
theorem RefreshDb.LiveJob.insert {version : String} {new : JobRow} (h : db.LiveJob v)
    (hnew : new.state.live = true) :
    ({ db with job := db.job.insert version new } : RefreshDb).LiveJob v := by
  obtain ⟨job, hjob, hlive⟩ := h
  by_cases hv : v = version
  · subst hv
    exact ⟨new, Table.lookup_insert_self _ _ _, hnew⟩
  · exact ⟨job, (Table.lookup_insert_of_ne _ _ hv).trans hjob, hlive⟩

/-- A live job stays live, unless the cursor moves beyond its version. -/
theorem Write.liveJob (hordered : Ordered db) (hwrite : Write now grant db db')
    (h : db.LiveJob v) : db'.LiveJob v ∨ db'.Past v := by
  cases hwrite with
  | openCursor _ => exact .inl h
  | @advance c version hc _ hnewer =>
    obtain ⟨job, hjob, hlive⟩ := h
    have hcurrent := hordered.live_current hjob hlive
    rcases advanceCursor_advances now hc hnewer with ⟨hsame, _⟩ | ⟨_, w, hw, hlt⟩
    · simp [RefreshDb.generation, advanceCursor, hc] at hsame
    · exact .inr ⟨w, hw, hlt v hcurrent⟩
  | assign _ _ => exact .inl h
  | schedule _ _ _ _ _ _ => exact .inl (h.insert rfl)
  | signal _ _ _ _ _ => exact .inl h
  | veto _ _ => exact .inl h
  | supersede hrow hlive hcurrent =>
    have hsame := current_of_version (hordered.live_current hrow hlive)
    rw [← hordered.jobLive _ _ hrow hlive] at hsame
    exact absurd hsame hcurrent
  | retry _ _ _ _ => exact .inl (h.insert rfl)
  | lease _ _ _ _ _ _ => exact .inl (h.insert rfl)
  | renew _ hheld _ =>
    have hleased := JobRow.leased_of_heldBy hheld
    exact .inl (h.insert (by rw [hleased]; rfl))

theorem Write.discharged (hordered : Ordered db) (hwrite : Write now grant db db')
    (h : Discharged db v) : Discharged db' v := by
  rcases h with hstamped | hlive | hpast
  · exact .inl (hwrite.keeps.refreshed hstamped)
  · exact .inr (hwrite.liveJob hordered hlive)
  · exact .inr (.inr (hwrite.keeps.past hpast))

theorem Writes.discharged (hordered : Ordered db) (hwrites : Writes now grant db db')
    (h : Discharged db v) : Discharged db' v := by
  induction hwrites with
  | refl => exact h
  | tail hprefix hwrite ih => exact hwrite.discharged (Writes.ordered hordered hprefix) ih

theorem Completion.discharged {job : ClaimedJob} (hcompletion : Completion now job db db')
    (h : Discharged db v) : Discharged db' v := by
  have hkeeps : Keeps now none db db' := hcompletion.keeps
  rcases h with hstamped | ⟨row, hrow, hlive⟩ | hpast
  · exact .inl (hkeeps.refreshed hstamped)
  · cases hcompletion with
    | mk _ _ _ _ _ _ _ _ =>
      by_cases hv : v = job.version
      · subst hv
        exact .inl (by simp [RefreshDb.refreshed])
      · exact .inr (.inl ⟨row, (Table.lookup_insert_of_ne _ _ hv).trans hrow, hlive⟩)
  · exact .inr (.inr (hkeeps.past hpast))

/-! ## The job of the cursor's version -/

/-- A job at the cursor's version is live or its latch is stamped. -/
theorem Ordered.discharged_of_job (h : Ordered db) {job : JobRow} (hversion : db.version = some v)
    (hjob : db.job.lookup v = some job) : Discharged db v := by
  cases hlive : job.state.live with
  | true => exact .inr (.inl ⟨job, hjob, hlive⟩)
  | false =>
    rcases h.jobDone v job hjob hlive with hlt | ⟨_, hstamped⟩
    · have hsame := (h.current v _ (h.jobLatch v job hjob)).2 hversion
      exact absurd hsame hlt.ne
    · exact .inl hstamped

theorem upsertJob_job {generation : Nat} {fresh : Bool}
    (h : upsertJob now v generation db = .ok (fresh, db')) :
    (∃ job, db'.job.lookup v = some job) ∧ db'.latch = db.latch ∧ db'.cursor = db.cursor := by
  unfold upsertJob at h
  split at h
  · next hsome =>
    cases h
    exact ⟨Option.isSome_iff_exists.1 hsome, rfl, rfl⟩
  · split at h
    · cases h
    · split at h
      · cases h
      · cases h
        exact ⟨⟨_, Table.lookup_insert_self _ _ _⟩, rfl, rfl⟩

/-- Once `_upsert_job` has run for the cursor's version, its obligation is discharged. -/
theorem upsertJob_discharged {c : Cursor} {generation : Nat} {fresh : Bool} (hordered : Ordered db)
    (hc : db.cursor = some c) (hversion : c.version = some v) (hgeneration : c.generation = generation)
    (h : upsertJob now v generation db = .ok (fresh, db')) : Discharged db' v := by
  obtain ⟨⟨job, hjob⟩, _, hcursor⟩ := upsertJob_job h
  have hwrites : Writes now none db db' := (upsertJob_writes hc hversion hgeneration h).1
  refine (hwrites.ordered hordered).discharged_of_job ?_ hjob
  simp [RefreshDb.version, hcursor, hc, hversion]

/-! ## Reconciliation -/

/-- No accepted complete latch is forgotten. -/
def Settled (required : Finset DataType) (db : RefreshDb) : Prop :=
  ∀ v row, db.latch.lookup v = some row → row.generation.isSome → required ⊆ row.signals →
    Discharged db v

/-- What the loop of `_reconcile_legacy` has done when `rest` is still to come: every
    row with an orderable key is ahead in `rest`, or behind the cursor, or has a
    generation and its obligation is discharged. -/
structure Sweeping (required : Finset DataType) (rest : List (String × LatchRow))
    (st : Reconciling) : Prop where
  ordered : Ordered st.db
  tracks : st.Tracks
  read : ∀ k r, (k, r) ∈ rest → ∃ row, st.db.latch.lookup k = some row ∧
    row.signals = r.signals ∧ row.refreshedAt = r.refreshedAt
  swept : ∀ v row, st.db.latch.lookup v = some row → orderedVersion v = .ok v →
    (∃ r, (v, r) ∈ rest) ∨ st.db.Past v ∨
      (row.generation.isSome ∧ (required ⊆ row.signals → Discharged st.db v))

theorem lockCursor_latch (now : Time) (db : RefreshDb) : (lockCursor now db).2.latch = db.latch := by
  unfold lockCursor
  split
  · rfl
  · rfl

theorem Sweeping.start (hordered : Ordered db) (hsettled : Settled required db) :
    Sweeping required (legacyRows (lockCursor now db).2)
      ⟨(lockCursor now db).1.generation, (lockCursor now db).1.version, (lockCursor now db).2⟩ where
  ordered := (lockCursor_writes now none db).ordered hordered
  tracks := lockCursor_tracks now db
  read := by
    intro k r hmem
    simp only [legacyRows, List.mem_filter, Table.mem_rows] at hmem
    exact ⟨r, hmem.1, rfl, rfl⟩
  swept := by
    intro v row hrow _
    cases hgeneration : row.generation with
    | none =>
      refine .inl ⟨row, List.mem_filter.2 ⟨(Table.mem_rows _ _ _).2 hrow, ?_⟩⟩
      simp [hgeneration]
    | some g =>
      refine .inr (.inr ⟨rfl, fun hcomplete => ?_⟩)
      refine (lockCursor_writes now none db).discharged hordered (hsettled v row ?_ ?_ hcomplete)
      · exact lockCursor_latch now db ▸ hrow
      · simp [hgeneration]

theorem accept_latch (now : Time) (version : String) (st : Reconciling) :
    (st.accept now version).db.latch = st.db.latch := by
  unfold Reconciling.accept
  split
  · rfl
  · rfl

theorem accept_job_isSome (now : Time) (version : String) (st : Reconciling) (v : String) :
    ((st.accept now version).db.job.lookup v).isSome = (st.db.job.lookup v).isSome := by
  unfold Reconciling.accept
  split
  · rw [advanceCursor_job, Option.isSome_map]
  · rfl

/-- The latch rows an iteration leaves: those it found, with a generation at the
    version it accepted. -/
theorem assigned_lookup {version : String} {st : Reconciling} {row' : LatchRow}
    (h : (assignGeneration now (st.accept now version).generation version
      (st.accept now version).db).latch.lookup v = some row') :
    ∃ row, st.db.latch.lookup v = some row ∧ row'.signals = row.signals ∧
      row'.refreshedAt = row.refreshedAt ∧ (v = version → row'.generation.isSome) ∧
      (row.generation.isSome → row'.generation.isSome) := by
  rw [assignGeneration_lookup, accept_latch] at h
  obtain ⟨row, hrow, rfl⟩ := Option.map_eq_some_iff.1 h
  refine ⟨row, hrow, ?_⟩
  split
  · exact ⟨rfl, rfl, fun _ => rfl, fun _ => rfl⟩
  · next hkept =>
    refine ⟨rfl, rfl, ?_, id⟩
    intro hv
    rw [Option.isSome_iff_ne_none]
    intro hnone
    exact hkept ⟨hv, hnone⟩

theorem assigned_kept {version : String} {st : Reconciling} {row : LatchRow}
    (h : st.db.latch.lookup v = some row) :
    ∃ row', (assignGeneration now (st.accept now version).generation version
      (st.accept now version).db).latch.lookup v = some row' ∧ row'.signals = row.signals ∧
      row'.refreshedAt = row.refreshedAt := by
  rw [assignGeneration_lookup, accept_latch, h]
  refine ⟨_, rfl, ?_⟩
  dsimp only
  split
  · exact ⟨rfl, rfl⟩
  · exact ⟨rfl, rfl⟩

/-- How one iteration ends: it skips its row, or it accepts the row's version and
    schedules a job for a complete unstamped row. -/
theorem reconcileRow_cases {st st' : Reconciling} {k : String} {r : LatchRow}
    (h : reconcileRow now required st (k, r) = .ok st') :
    (st' = st ∧ (isVersionText k = false ∨
      ∃ version, orderedVersion k = .ok version ∧ st.supersedes version = true)) ∨
    ∃ version, orderedVersion k = .ok version ∧ st.supersedes version = false ∧
      st'.generation = (st.accept now version).generation ∧
      st'.current = (st.accept now version).current ∧
      ((st'.db = assignGeneration now (st.accept now version).generation version
          (st.accept now version).db ∧ (r.refreshedAt.isSome ∨ ¬required ⊆ r.signals)) ∨
        (r.refreshedAt = none ∧ required ⊆ r.signals ∧
          ∃ fresh, upsertJob now version (st.accept now version).generation
            (assignGeneration now (st.accept now version).generation version
              (st.accept now version).db) = .ok (fresh, st'.db))) := by
  unfold reconcileRow at h
  split at h
  · next hskip =>
    cases h
    simp only [Bool.and_eq_true, Bool.not_eq_true'] at hskip
    exact .inl ⟨rfl, .inl hskip.2⟩
  · obtain ⟨version, hversion, h⟩ := bind_eq_ok.1 h
    split at h
    · next hsuperseded =>
      cases h
      exact .inl ⟨rfl, .inr ⟨version, hversion, hsuperseded⟩⟩
    · next hsuperseded =>
      refine .inr ⟨version, hversion, by simpa using hsuperseded, ?_⟩
      split at h
      · next hcomplete =>
        obtain ⟨⟨fresh, db'⟩, hjob, h⟩ := bind_eq_ok.1 h
        cases h
        simp only [Bool.and_eq_true, Option.isNone_iff_eq_none, decide_eq_true_iff] at hcomplete
        exact ⟨rfl, rfl, .inr ⟨hcomplete.1, hcomplete.2, fresh, hjob⟩⟩
      · next hincomplete =>
        cases h
        refine ⟨rfl, rfl, .inl ⟨rfl, ?_⟩⟩
        cases hstamp : r.refreshedAt with
        | some at' => exact .inl rfl
        | none => exact .inr (by simpa [hstamp] using hincomplete)

theorem Sweeping.step {st st' : Reconciling} {k : String} {r : LatchRow}
    {rest : List (String × LatchRow)} (h : Sweeping required ((k, r) :: rest) st)
    (hrow : reconcileRow now required st (k, r) = .ok st') : Sweeping required rest st' := by
  obtain ⟨hwrites, htracks⟩ : Writes now none st.db st'.db ∧ st'.Tracks :=
    reconcileRow_writes h.tracks hrow
  have hordered := hwrites.ordered h.ordered
  have hkeeps := hwrites.keeps
  rcases reconcileRow_cases hrow with ⟨rfl, hskip⟩ | ⟨version, hversion, hnot, _, _, hwritten⟩
  · -- skipped: the tables are as they were, and this row is settled already
    refine ⟨hordered, htracks, fun k r hmem => h.read k r (List.mem_cons_of_mem _ hmem), ?_⟩
    intro v row hlookup hvalid
    rcases h.swept v row hlookup hvalid with ⟨r', hmem⟩ | hdone
    · rcases List.mem_cons.1 hmem with hhead | htail
      · -- An orderable key is skipped only when the cursor is beyond it.
        cases hhead
        rcases hskip with htext | ⟨version, hversion, hsuperseded⟩
        · have hvalidText := (orderedVersion_eq_ok.1 hvalid).2.1
          rw [htext] at hvalidText
          cases hvalidText
        · rw [hvalid] at hversion
          cases hversion
          obtain ⟨current, hcurrent, hlt⟩ := supersedes_iff.1 hsuperseded
          exact .inr (.inl ⟨current, (tracks_generation h.tracks).2.trans hcurrent, hlt⟩)
      · exact .inl ⟨r', htail⟩
    · exact .inr hdone
  · -- accepted: its generation is assigned, and a job scheduled if it is owed
    have hlatch : st'.db.latch = (assignGeneration now (st.accept now version).generation version
        (st.accept now version).db).latch := by
      rcases hwritten with ⟨hsame, _⟩ | ⟨_, _, fresh, hjob⟩
      · rw [hsame]
      · exact (upsertJob_job hjob).2.1
    refine ⟨hordered, htracks, ?_, ?_⟩
    · intro k' r' hmem
      obtain ⟨row, hlookup, hsignals, hstamp⟩ := h.read k' r' (List.mem_cons_of_mem _ hmem)
      obtain ⟨row', hlookup', hsignals', hstamp'⟩ := assigned_kept hlookup
      exact ⟨row', hlatch ▸ hlookup', hsignals'.trans hsignals, hstamp'.trans hstamp⟩
    · intro v row' hlookup' hvalid
      rw [hlatch] at hlookup'
      obtain ⟨row, hlookup, hsignals, hstamp, hassigned, hgeneration⟩ := assigned_lookup hlookup'
      rcases h.swept v row hlookup hvalid with ⟨r', hmem⟩ | hpast | ⟨hsome, hsettled⟩
      · rcases List.mem_cons.1 hmem with hhead | htail
        · -- The row of this iteration, whose key is the accepted version.
          cases hhead
          rw [hvalid] at hversion
          cases hversion
          refine .inr (.inr ⟨hassigned rfl, fun hcomplete => ?_⟩)
          obtain ⟨row₀, hlookup₀, hsignals₀, hstamp₀⟩ := h.read _ _ List.mem_cons_self
          rw [hlookup] at hlookup₀
          cases hlookup₀
          rcases hwritten with ⟨hsame, hstamped | hincomplete⟩ | ⟨_, _, fresh, hjob⟩
          · refine .inl ?_
            rw [RefreshDb.refreshed, hlatch, hlookup', Option.bind_some, hstamp, hstamp₀]
            exact hstamped
          · rw [hsignals, hsignals₀] at hcomplete
            exact absurd hcomplete hincomplete
          · obtain ⟨haccept, updatedAt, hc⟩ := accept_writes now none h.tracks hvalid
            have hassign : Write now none _ _ := .assign hc (accept_current now hnot)
            exact upsertJob_discharged (hassign.ordered (haccept.ordered h.ordered))
              (c := ⟨_, _, updatedAt⟩) hc (accept_current now hnot) rfl hjob
        · exact .inl ⟨r', htail⟩
      · exact .inr (.inl (hkeeps.past hpast))
      · refine .inr (.inr ⟨hgeneration hsome, fun hcomplete => ?_⟩)
        exact hwrites.discharged h.ordered (hsettled (hsignals ▸ hcomplete))

theorem Sweeping.run {rest : List (String × LatchRow)} {st st' : Reconciling}
    (h : Sweeping required rest st) (hrun : rest.foldlM (reconcileRow now required) st = .ok st') :
    Sweeping required [] st' := by
  induction rest generalizing st with
  | nil =>
    cases hrun
    exact h
  | cons row rest ih =>
    rw [List.foldlM_cons, bind_eq_ok] at hrun
    obtain ⟨mid, hfirst, hrest⟩ := hrun
    exact ih (h.step hfirst) hrest

/-- After a reconciliation every complete latch with an orderable key is discharged. -/
theorem reconcileLegacy_sweeps {st : Reconciling} (hordered : Ordered db)
    (hsettled : Settled required db) (h : reconcileLegacy now required db = .ok st) :
    Sweeping required [] st :=
  (Sweeping.start hordered hsettled).run h

theorem Sweeping.settled {st : Reconciling} (h : Sweeping required [] st) :
    Settled required st.db := by
  intro v row hrow hsome hcomplete
  obtain ⟨g, hg⟩ := Option.isSome_iff_exists.1 hsome
  have hvalid := h.ordered.latchValid v g (by simp [RefreshDb.latchGeneration, hrow, hg])
  rcases h.swept v row hrow hvalid with ⟨r, hmem⟩ | hpast | ⟨_, hdischarged⟩
  · cases hmem
  · exact .inr (.inr hpast)
  · exact hdischarged hcomplete

/-! ## Signals -/

/-- A signal is durable once its latch row holds it and either has a generation or is
    behind the cursor. -/
def Recorded (db : RefreshDb) (v : String) (dataType : DataType) : Prop :=
  ∃ row, db.latch.lookup v = some row ∧ dataType ∈ row.signals ∧
    (row.generation.isSome ∨ db.Past v)

theorem Keeps.recorded {dataType : DataType} (h : Keeps now grant db db')
    (hrecorded : Recorded db v dataType) : Recorded db' v dataType := by
  obtain ⟨row, hrow, hmem, hplaced⟩ := hrecorded
  obtain ⟨row', hrow', hsignals, _, hgeneration⟩ := h.latch v row hrow
  refine ⟨row', hrow', hsignals hmem, ?_⟩
  rcases hplaced with hsome | hpast
  · exact .inl (by rw [hgeneration hsome]; exact hsome)
  · exact .inr (h.past hpast)

/-- The signals of a version are all durable, so its obligation is discharged. -/
theorem Settled.discharged (h : Settled required db)
    (hne : required.Nonempty) (hall : ∀ dataType ∈ required, Recorded db v dataType) :
    Discharged db v := by
  obtain ⟨first, hfirst⟩ := hne
  obtain ⟨row, hrow, _, hplaced⟩ := hall first hfirst
  have hcomplete : required ⊆ row.signals := by
    intro dataType hmem
    obtain ⟨row', hrow', hsignal, _⟩ := hall dataType hmem
    rw [hrow] at hrow'
    cases hrow'
    exact hsignal
  rcases hplaced with hsome | hpast
  · exact h v row hrow hsome hcomplete
  · exact .inr (.inr hpast)

theorem signalledRow_signals (now : Time) (generation : Option Nat) (dataType : DataType)
    (prior : Option LatchRow) :
    (signalledRow now generation dataType prior).signals =
      insert dataType ((prior.map LatchRow.signals).getD ∅) := by
  cases prior with
  | none => rfl
  | some row => rfl

theorem signal_lookup_self (now : Time) (version : String) (dataType : DataType)
    (st : Reconciling) :
    (st.signal now version dataType).2.latch.lookup version =
      some (st.signal now version dataType).1 :=
  Table.lookup_insert_self _ _ _

theorem signal_lookup_of_ne (now : Time) {version : String} (dataType : DataType)
    (st : Reconciling) (hv : v ≠ version) :
    (st.signal now version dataType).2.latch.lookup v = st.db.latch.lookup v := by
  rw [← accept_latch now version st]
  exact Table.lookup_insert_of_ne _ _ hv

theorem mem_signal_signals (now : Time) (version : String) (dataType : DataType)
    (st : Reconciling) : dataType ∈ (st.signal now version dataType).1.signals := by
  unfold Reconciling.signal upsertSignal
  simp only [signalledRow_signals]
  exact Finset.mem_insert_self _ _

theorem past_of_supersedes {version : String} {st : Reconciling} (htracks : st.Tracks)
    (h : st.supersedes version = true) : st.db.Past version := by
  obtain ⟨current, hcurrent, hlt⟩ := supersedes_iff.1 h
  exact ⟨current, (tracks_generation htracks).2.trans hcurrent, hlt⟩

theorem acceptSignal_latch {version : String} {dataType : DataType} {st : Reconciling}
    {result : DurableSignal}
    (h : acceptSignal now version dataType required st = .ok (result, db')) :
    db'.latch = (st.signal now version dataType).2.latch := by
  rcases acceptSignal_cases h with ⟨rfl, _⟩ | ⟨_, _, fresh, hjob⟩
  · rfl
  · exact (upsertJob_job hjob).2.1

/-- The obligation of a version that has just been signalled. -/
theorem acceptSignal_discharged {version : String} {dataType : DataType} {st : Reconciling}
    {result : DurableSignal} (h : Sweeping required [] st)
    (hversion : orderedVersion version = .ok version)
    (haccept : acceptSignal now version dataType required st = .ok (result, db'))
    (hcomplete : required ⊆ (st.signal now version dataType).1.signals) :
    Discharged db' version := by
  have hwrites : Writes now none st.db db' := acceptSignal_writes h.tracks hversion haccept
  rcases acceptSignal_cases haccept with ⟨rfl, hsuperseded | hstamped | hincomplete⟩ |
    ⟨hnot, _, fresh, hjob⟩
  · exact .inr (.inr (hwrites.keeps.past (past_of_supersedes h.tracks hsuperseded)))
  · refine .inl ?_
    rw [RefreshDb.refreshed, signal_lookup_self, Option.bind_some, Option.isSome_iff_ne_none]
    exact hstamped
  · exact absurd hcomplete hincomplete
  · obtain ⟨_, updatedAt, hc⟩ := accept_writes now none h.tracks hversion
    have hsignal : Writes now none st.db _ := Reconciling.signal_writes dataType h.tracks hversion
    exact upsertJob_discharged (hsignal.ordered h.ordered) (c := ⟨_, _, updatedAt⟩) hc
      (accept_current now hnot) rfl hjob

theorem acceptSignal_settled {version : String} {dataType : DataType} {st : Reconciling}
    {result : DurableSignal} (h : Sweeping required [] st)
    (hversion : orderedVersion version = .ok version)
    (haccept : acceptSignal now version dataType required st = .ok (result, db')) :
    Settled required db' := by
  have hwrites : Writes now none st.db db' := acceptSignal_writes h.tracks hversion haccept
  intro v row hrow hsome hcomplete
  rw [acceptSignal_latch haccept] at hrow
  by_cases hv : v = version
  · subst hv
    rw [signal_lookup_self] at hrow
    cases hrow
    exact acceptSignal_discharged h hversion haccept hcomplete
  · rw [signal_lookup_of_ne now dataType st hv] at hrow
    exact hwrites.discharged h.ordered (h.settled v row hrow hsome hcomplete)

theorem acceptSignal_recorded {version : String} {dataType : DataType} {st : Reconciling}
    {result : DurableSignal} (h : Sweeping required [] st)
    (hversion : orderedVersion version = .ok version)
    (haccept : acceptSignal now version dataType required st = .ok (result, db')) :
    Recorded db' version dataType := by
  have hwrites : Writes now none st.db db' := acceptSignal_writes h.tracks hversion haccept
  have hlookup := signal_lookup_self now version dataType st
  rw [← acceptSignal_latch haccept] at hlookup
  refine ⟨_, hlookup, mem_signal_signals now version dataType st, ?_⟩
  cases hsuperseded : st.supersedes version with
  | true => exact .inr (hwrites.keeps.past (past_of_supersedes h.tracks hsuperseded))
  | false =>
    refine .inl ?_
    rw [signal_generation now dataType h.ordered h.tracks hversion hsuperseded]
    rfl

/-- `record_durable_signal` commits the signal together with what it is owed. -/
theorem recordDurableSignal_settled {versionValue : String} {dataType : DataType}
    {result : DurableSignal} (hordered : Ordered db) (hsettled : Settled required db)
    (h : recordDurableSignal now versionValue dataType required db = .ok (result, db')) :
    Settled required db' ∧
      ∀ version, orderedVersion versionValue = .ok version → Recorded db' version dataType := by
  obtain ⟨version, st, hversion, _, hst, haccept⟩ := recordDurableSignal_eq_ok.1 h
  have hsweep := reconcileLegacy_sweeps hordered hsettled hst
  have hvalid := orderedVersion_idem hversion
  refine ⟨acceptSignal_settled hsweep hvalid haccept, ?_⟩
  intro version' hversion'
  rw [hversion] at hversion'
  cases hversion'
  exact acceptSignal_recorded hsweep hvalid haccept

theorem reconcileLegacyLatches_settled (hordered : Ordered db) (hsettled : Settled required db)
    (h : reconcileLegacyLatches now required db = .ok db') : Settled required db' := by
  obtain ⟨st, hst, rfl⟩ := map_eq_ok.1 h
  exact (reconcileLegacy_sweeps hordered hsettled hst).settled

/-! ## Along a run -/

/-- A transaction that neither signals nor assigns keeps every obligation discharged. -/
theorem Settled.of_latch (h : Settled required db)
    (hlatch : ∀ v row', db'.latch.lookup v = some row' → row'.generation.isSome →
      required ⊆ row'.signals → ∃ row, db.latch.lookup v = some row ∧ row.generation.isSome ∧
        required ⊆ row.signals)
    (hdischarged : ∀ v, Discharged db v → Discharged db' v) : Settled required db' := by
  intro v row' hrow' hsome hcomplete
  obtain ⟨row, hrow, hsome, hcomplete⟩ := hlatch v row' hrow' hsome hcomplete
  exact hdischarged v (h v row hrow hsome hcomplete)

theorem Settled.of_still (hordered : Ordered db) (h : Settled required db)
    (hwrites : Writes now grant db db') (hlatch : db'.latch = db.latch) : Settled required db' := by
  refine h.of_latch ?_ fun v => hwrites.discharged hordered
  intro v row hrow hsome hcomplete
  exact ⟨row, hlatch ▸ hrow, hsome, hcomplete⟩

theorem recordPurgeVeto_settled {version : String} {dataType : DataType} (hordered : Ordered db)
    (h : Settled required db) :
    Settled required (recordPurgeVeto now version dataType db) := by
  have hwrite : Write now none db (recordPurgeVeto now version dataType db) := .veto _ _
  refine h.of_latch ?_ fun v => hwrite.discharged hordered
  intro v row' hrow' hsome hcomplete
  rw [recordPurgeVeto, Table.lookup_insert] at hrow'
  split at hrow'
  · next hv =>
    cases hrow'
    cases hprior : db.latch.lookup version with
    | none =>
      rw [hprior] at hsome
      cases hsome
    | some row =>
      rw [hprior] at hsome hcomplete
      exact ⟨row, hv ▸ hprior, hsome, hcomplete⟩
  · exact ⟨row', hrow', hsome, hcomplete⟩

theorem Completion.settled {job : ClaimedJob} (hcompletion : Completion now job db db')
    (h : Settled required db) : Settled required db' := by
  refine h.of_latch ?_ fun v => hcompletion.discharged
  intro v row' hrow' hsome hcomplete
  cases hcompletion with
  | @mk latch row _ hlatch _ _ _ _ _ _ =>
    rw [Table.lookup_insert] at hrow'
    split at hrow'
    · next hv =>
      cases hrow'
      exact ⟨latch, hv ▸ hlatch, hsome, hcomplete⟩
    · exact ⟨row', hrow', hsome, hcomplete⟩

theorem claimDueJob_latch (now : Time) (owner : String) (token : Token) (locked : String → Bool)
    (db : RefreshDb) : (claimDueJob now owner token locked db).2.latch = db.latch := by
  have hlatch := lockCursor_latch now db
  unfold claimDueJob
  split
  next cursor db₁ hlock =>
  rw [hlock] at hlatch
  split
  · exact hlatch
  · split
    · exact hlatch
    · split
      · exact hlatch
      · split
        · exact hlatch
        · exact hlatch

namespace Cluster

variable {R : Type} {s s' : Cluster R}

theorem claimStep_latch (s : Cluster R) (owner : String) (token : Token)
    (locked : String → Bool) : (s.claimStep owner token locked).db.latch = s.db.latch := by
  have hlatch := claimDueJob_latch s.now owner token locked s.db
  unfold claimStep
  split
  next job db hclaim =>
  rw [hclaim] at hlatch
  split
  · exact hlatch
  · exact hlatch

theorem step_settled {a : Action R} (hclaims : s.Claims)
    (hordered : Ordered s.db) (hsettled : Settled required s.db)
    (h : s.step required a = some s') : Settled required s'.db := by
  cases step_kind hclaims h with
  | quiet hquiet _ _ hlatching =>
    cases hlatching with
    | still hlatch => exact hsettled.of_still hordered hquiet.writes hlatch
    | veto version dataType heq =>
      rw [heq]
      exact recordPurgeVeto_settled hordered hsettled
    | reconcile hreconcile => exact reconcileLegacyLatches_settled hordered hsettled hreconcile
    | signal hsignal => exact (recordDurableSignal_settled hordered hsettled hsignal).1
  | claim owner token locked _ heq =>
    subst heq
    exact hsettled.of_still hordered (claimStep_writes s owner token locked)
      (claimStep_latch s owner token locked)
  | commit _ _ hcompletion _ _ _ _ _ => exact hcompletion.settled hsettled

theorem step_recorded {a : Action R} {v : String} {dataType : DataType} (hclaims : s.Claims)
    (h : s.step required a = some s') (hrecorded : Recorded s.db v dataType) :
    Recorded s'.db v dataType := by
  rcases step_tables hclaims h with ⟨grant, hwrites⟩ | ⟨job, hcompletion⟩
  · exact hwrites.keeps.recorded hrecorded
  · have hkeeps : Keeps s.now none s.db s'.db := hcompletion.keeps
    exact hkeeps.recorded hrecorded

end Cluster

end Tableinator.Durable
