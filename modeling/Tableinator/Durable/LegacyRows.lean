import Mathlib.Order.Bounds.Basic
import Tableinator.Durable.Obligation

/-! # Legacy latch rows

What `_reconcile_legacy` makes of the rows the inline protocol left without a generation.
A row stops the loop if its version cannot be placed among the dumps, unless the row is
completed and its key does not even look like a version.  The remaining rows are read in
ascending order, so each of them meets the greatest version accepted so far. -/

namespace Tableinator.Durable

open Relational

variable {now : Time} {required : Finset DataType} {db : RefreshDb} {st st' mid : Reconciling}
variable {v k : String} {r : LatchRow} {row : String × LatchRow}
variable {rest : List (String × LatchRow)}

/-- `ordered_version` takes the text. -/
def Orderable (version : String) : Prop := (orderedVersion version).isOk = true

instance (version : String) : Decidable (Orderable version) := inferInstanceAs (Decidable (_ = _))

theorem orderedVersion_of_orderable (hkey : strip v = v) (h : Orderable v) :
    orderedVersion v = .ok v := by
  unfold Orderable at h
  cases hversion : orderedVersion v with
  | error e => simp [hversion, Except.isOk, Except.toBool] at h
  | ok version =>
    have hstrip := (orderedVersion_eq_ok.1 hversion).1
    rw [← hstrip, hkey]

theorem orderable_of_ok {version : String} (h : orderedVersion v = .ok version) : Orderable v := by
  simp [Orderable, h, Except.isOk, Except.toBool]

theorem isVersionText_of_orderable (hkey : strip v = v) (h : Orderable v) :
    isVersionText v = true :=
  (orderedVersion_eq_ok.1 (orderedVersion_of_orderable hkey h)).2.1

/-! ## Rows that stop the loop -/

/-- The row passes the completed-row test and fails the calendar's. -/
def Refused (row : String × LatchRow) : Prop :=
  ¬Orderable row.1 ∧ (row.2.refreshedAt = none ∨ isVersionText row.1 = true)

theorem upsertJob_refuses {generation : Nat} {message : String}
    (h : upsertJob now v generation db = .error (.valueError message)) : False := by
  unfold upsertJob at h
  split at h
  · cases h
  · split at h
    · cases h
    · split at h
      · cases h
      · cases h

theorem refused_of_error {message : String}
    (h : reconcileRow now required st row = .error (.valueError message)) : Refused row := by
  unfold reconcileRow at h
  split at h
  · cases h
  · next hread =>
    rcases bind_eq_error.1 h with hversion | ⟨version, hversion, h⟩
    · refine ⟨?_, ?_⟩
      · simp [Orderable, hversion, Except.isOk, Except.toBool]
      · cases hstamp : row.2.refreshedAt with
        | none => exact .inl rfl
        | some at' => exact .inr (by simpa [hstamp] using hread)
    · -- Past `ordered_version` only the database raises.
      split at h
      · cases h
      · split at h
        · rcases bind_eq_error.1 h with hjob | ⟨result, _, h⟩
          · exact (upsertJob_refuses hjob).elim
          · cases h
        · cases h

theorem not_refused_of_ok (h : reconcileRow now required st row = .ok st') : ¬Refused row := by
  intro hrefused
  unfold reconcileRow at h
  split at h
  · next hskip =>
    simp only [Bool.and_eq_true, Bool.not_eq_true'] at hskip
    cases hrefused.2 with
    | inl hnone => simp [hnone] at hskip
    | inr htext => simp [htext] at hskip
  · obtain ⟨version, hversion, -⟩ := bind_eq_ok.1 h
    exact hrefused.1 (orderable_of_ok hversion)

/-- The loop raises at the first row it refuses. -/
theorem exists_refused (h : ∃ message, rest.foldlM (reconcileRow now required) st =
    .error (.valueError message)) : ∃ row ∈ rest, Refused row := by
  obtain ⟨message, h⟩ := h
  induction rest generalizing st with
  | nil => cases h
  | cons row rest ih =>
    rw [List.foldlM_cons] at h
    rcases bind_eq_error.1 h with hfirst | ⟨mid, _, hrest⟩
    · exact ⟨row, List.mem_cons_self, refused_of_error hfirst⟩
    · obtain ⟨other, hmem, hrefused⟩ := ih hrest
      exact ⟨other, List.mem_cons_of_mem _ hmem, hrefused⟩

theorem forall_not_refused (h : rest.foldlM (reconcileRow now required) st = .ok st') :
    ∀ row ∈ rest, ¬Refused row := by
  induction rest generalizing st with
  | nil => simp
  | cons row rest ih =>
    rw [List.foldlM_cons, bind_eq_ok] at h
    obtain ⟨mid, hfirst, hrest⟩ := h
    intro other hother
    cases List.mem_cons.1 hother with
    | inl hhead => exact hhead ▸ not_refused_of_ok hfirst
    | inr htail => exact ih hrest other htail

/-! ## What the loop has done after some rows -/

/-- The cursor is not beyond the version. -/
def Reconciling.Reaches (st : Reconciling) (version : String) : Prop :=
  ∀ c, st.current = some c → c ≤ version

theorem reaches_iff : st.Reaches v ↔ st.supersedes v = false := by
  unfold Reconciling.Reaches Reconciling.supersedes
  cases st.current with
  | none => simp
  | some c =>
    rw [Option.any_some, decide_eq_false_iff_not, not_lt]
    constructor
    · exact fun h => h c rfl
    · intro h c' hc'
      cases hc'
      exact h

/-- The row owes a job: its extraction is complete and was not refreshed. -/
def Owing (required : Finset DataType) (row : LatchRow) : Prop :=
  row.refreshedAt = none ∧ required ⊆ row.signals

structure Advanced (required : Finset DataType) (st : Reconciling) (rest : List (String × LatchRow))
    (st' : Reconciling) : Prop where
  rows : ∀ v, (st.db.latch.lookup v).isSome → (st'.db.latch.lookup v).isSome
  from_rows : ∀ v, st'.current = some v →
    st.current = some v ∨ ∃ row, (v, row) ∈ rest ∧ Orderable v
  covers : ∀ v, (st.current = some v ∨ ∃ row, (v, row) ∈ rest ∧ Orderable v) →
    ∃ u, st'.current = some u ∧ v ≤ u
  kept : ∀ v, (st.db.latchGeneration v).isSome → (st'.db.latchGeneration v).isSome
  assigned : ∀ v row, (v, row) ∈ rest → Orderable v → st.Reaches v →
    (st'.db.latchGeneration v).isSome
  job : ∀ v, (st'.db.job.lookup v).isSome ↔ (st.db.job.lookup v).isSome ∨
    ∃ row, (v, row) ∈ rest ∧ Orderable v ∧ st.Reaches v ∧ Owing required row

theorem Advanced.nil : Advanced required st [] st where
  rows _ h := h
  from_rows _ h := .inl h
  covers v h := by
    rcases h with h | ⟨row, hmem, _⟩
    · exact ⟨v, h, le_rfl⟩
    · cases hmem
  kept _ h := h
  assigned _ _ h := by cases h
  job v := by simp

/-! ### One row -/

theorem upsertJob_isSome {generation : Nat} {fresh : Bool} {db' : RefreshDb}
    (h : upsertJob now k generation db = .ok (fresh, db')) :
    (db'.job.lookup v).isSome ↔ (db.job.lookup v).isSome ∨ v = k := by
  unfold upsertJob at h
  split at h
  · next hsome =>
    cases h
    constructor
    · exact .inl
    · intro hor
      cases hor with
      | inl hlookup => exact hlookup
      | inr heq => exact heq ▸ hsome
  · split at h
    · cases h
    · split at h
      · cases h
      · cases h
        by_cases hv : v = k
        · simp [hv]
        · simp [Table.lookup_insert_of_ne _ _ hv, hv]

theorem assigned_generation {version : String} (hlookup : (st.db.latch.lookup v).isSome)
    (h : v = version ∨ (st.db.latchGeneration v).isSome) :
    ((assignGeneration now (st.accept now version).generation version
      (st.accept now version).db).latchGeneration v).isSome := by
  obtain ⟨row, hrow⟩ := Option.isSome_iff_exists.1 hlookup
  obtain ⟨row', hrow', -⟩ := @assigned_kept now v version st row hrow
  obtain ⟨found, hfound, -, -, hversion, hgeneration⟩ := assigned_lookup hrow'
  rw [hrow, Option.some.injEq] at hfound
  subst hfound
  simp only [RefreshDb.latchGeneration, hrow, hrow', Option.bind_some] at h ⊢
  cases h with
  | inl heq => exact hversion heq
  | inr hsome => exact hgeneration hsome

/-- A skipped row is no dump version, or the cursor is beyond it. -/
theorem Advanced.skipped (hbeyond : Orderable k → ∃ c, st.current = some c ∧ k < c) :
    Advanced required st [(k, r)] st := by
  have hclosed : ∀ v row, (v, row) ∈ [(k, r)] → Orderable v → ¬st.Reaches v := by
    intro v row hmem horderable hreaches
    cases List.mem_singleton.1 hmem
    obtain ⟨c, hc, hlt⟩ := hbeyond horderable
    exact absurd hlt (not_lt.2 (hreaches c hc))
  constructor
  case rows => exact fun _ h => h
  case from_rows => exact fun _ h => .inl h
  case covers =>
    intro v hv
    rcases hv with hv | ⟨row, hmem, horderable⟩
    · exact ⟨v, hv, le_rfl⟩
    · cases List.mem_singleton.1 hmem
      obtain ⟨c, hc, hlt⟩ := hbeyond horderable
      exact ⟨c, hc, hlt.le⟩
  case kept => exact fun _ h => h
  case assigned =>
    intro v row hmem horderable hreaches
    exact absurd hreaches (hclosed v row hmem horderable)
  case job =>
    intro v
    constructor
    · exact .inl
    · intro hor
      rcases hor with hjob | ⟨row, hmem, horderable, hreaches, _⟩
      · exact hjob
      · exact absurd hreaches (hclosed v row hmem horderable)

/-- A row the cursor has not passed is accepted, and the job it owes is there afterwards. -/
theorem Advanced.accepted (horderable : Orderable k) (hreaches : st.Reaches k)
    (hpresent : (st.db.latch.lookup k).isSome) (hcurrent : st'.current = some k)
    (hlatch : st'.db.latch = (assignGeneration now (st.accept now k).generation k
      (st.accept now k).db).latch)
    (hjob : ∀ v, (st'.db.job.lookup v).isSome ↔ (st.db.job.lookup v).isSome ∨
      v = k ∧ Owing required r) : Advanced required st [(k, r)] st' := by
  have hgeneration : ∀ v, st'.db.latchGeneration v = (assignGeneration now
      (st.accept now k).generation k (st.accept now k).db).latchGeneration v := by
    intro v
    simp only [RefreshDb.latchGeneration, hlatch]
  constructor
  case rows =>
    intro v hv
    obtain ⟨row, hrow⟩ := Option.isSome_iff_exists.1 hv
    obtain ⟨row', hrow', -⟩ := @assigned_kept now v k st row hrow
    rw [hlatch, hrow']
    rfl
  case from_rows =>
    intro v hv
    rw [hcurrent] at hv
    cases hv
    exact .inr ⟨r, List.mem_singleton_self _, horderable⟩
  case covers =>
    intro v hv
    refine ⟨k, hcurrent, ?_⟩
    rcases hv with hv | ⟨row, hmem, _⟩
    · exact hreaches v hv
    · cases List.mem_singleton.1 hmem
      exact le_rfl
  case kept =>
    intro v hv
    rw [hgeneration]
    apply assigned_generation _ (.inr hv)
    obtain ⟨g, hg⟩ := Option.isSome_iff_exists.1 hv
    obtain ⟨row, hrow, -⟩ := Option.bind_eq_some_iff.1 hg
    simp [hrow]
  case assigned =>
    intro v row hmem _ _
    cases List.mem_singleton.1 hmem
    rw [hgeneration]
    exact assigned_generation hpresent (.inl rfl)
  case job =>
    intro v
    rw [hjob]
    refine or_congr_right ?_
    constructor
    · rintro ⟨rfl, howing⟩
      exact ⟨r, List.mem_singleton_self _, horderable, hreaches, howing⟩
    · rintro ⟨row, hmem, _, _, howing⟩
      cases List.mem_singleton.1 hmem
      exact ⟨rfl, howing⟩

theorem Advanced.step (hkey : strip k = k) (hpresent : (st.db.latch.lookup k).isSome)
    (h : reconcileRow now required st (k, r) = .ok st') : Advanced required st [(k, r)] st' := by
  rcases reconcileRow_cases h with ⟨rfl, hskip⟩ | ⟨version, hversion, hnot, _, hcurrent, hwritten⟩
  · refine .skipped fun horderable => ?_
    rcases hskip with htext | ⟨version, hversion, hsuperseded⟩
    · rw [isVersionText_of_orderable hkey horderable] at htext
      cases htext
    · rw [orderedVersion_of_orderable hkey horderable] at hversion
      cases hversion
      exact supersedes_iff.1 hsuperseded
  · have horderable : Orderable k := orderable_of_ok hversion
    rw [orderedVersion_of_orderable hkey horderable] at hversion
    cases hversion
    rw [accept_current now hnot] at hcurrent
    have haccept : ∀ v, ((assignGeneration now (st.accept now k).generation k
        (st.accept now k).db).job.lookup v).isSome ↔ (st.db.job.lookup v).isSome := fun v =>
      (accept_job_isSome now k st v) ▸ Iff.rfl
    rcases hwritten with ⟨hsame, hidle⟩ | ⟨hstamp, hcomplete, fresh, hjob⟩
    · refine .accepted horderable (reaches_iff.2 hnot) hpresent hcurrent (by rw [hsame]) fun v => ?_
      have hpaid : ¬Owing required r := by
        rintro ⟨hstamp, hcomplete⟩
        rcases hidle with hstamped | hincomplete
        · simp [hstamp] at hstamped
        · exact hincomplete hcomplete
      rw [hsame, haccept]
      simp [hpaid]
    · refine .accepted horderable (reaches_iff.2 hnot) hpresent hcurrent (upsertJob_job hjob).2.1
        fun v => ?_
      have howing : Owing required r := ⟨hstamp, hcomplete⟩
      rw [upsertJob_isSome hjob, haccept]
      simp [howing]

/-! ### All rows, in ascending order -/

theorem Advanced.reaches (h : Advanced required st [(k, r)] mid) (hlt : k < v) :
    mid.Reaches v ↔ st.Reaches v := by
  constructor
  · intro hreaches c hc
    obtain ⟨u, hu, hle⟩ := h.covers c (.inl hc)
    exact hle.trans (hreaches u hu)
  · intro hreaches c hc
    rcases h.from_rows c hc with hold | ⟨row, hmem, _⟩
    · exact hreaches c hold
    · cases List.mem_singleton.1 hmem
      exact hlt.le

theorem Advanced.cons (h : Advanced required st [(k, r)] mid) (hrest : Advanced required mid rest st')
    (hsorted : ∀ row ∈ rest, k < row.1) : Advanced required st ((k, r) :: rest) st' where
  rows v hv := hrest.rows v (h.rows v hv)
  from_rows := by
    intro v hv
    rcases hrest.from_rows v hv with hmid | ⟨row, hmem, horderable⟩
    · rcases h.from_rows v hmid with hold | ⟨row, hmem, horderable⟩
      · exact .inl hold
      · exact .inr ⟨row, List.mem_cons.2 (.inl (List.mem_singleton.1 hmem)), horderable⟩
    · exact .inr ⟨row, List.mem_cons_of_mem _ hmem, horderable⟩
  covers := by
    intro v hv
    have hfirst : (st.current = some v ∨ ∃ row, (v, row) ∈ [(k, r)] ∧ Orderable v) ∨
        ∃ row, (v, row) ∈ rest ∧ Orderable v := by
      rcases hv with hold | ⟨row, hmem, horderable⟩
      · exact .inl (.inl hold)
      · cases List.mem_cons.1 hmem with
        | inl hhead => exact .inl (.inr ⟨row, List.mem_singleton.2 hhead, horderable⟩)
        | inr htail => exact .inr ⟨row, htail, horderable⟩
    rcases hfirst with hfirst | htail
    · obtain ⟨u, hu, hle⟩ := h.covers v hfirst
      obtain ⟨w, hw, hle'⟩ := hrest.covers u (.inl hu)
      exact ⟨w, hw, hle.trans hle'⟩
    · exact hrest.covers v (.inr htail)
  kept v hv := hrest.kept v (h.kept v hv)
  assigned := by
    intro v row hmem horderable hreaches
    cases List.mem_cons.1 hmem with
    | inl hhead =>
      exact hrest.kept v (h.assigned v row (List.mem_singleton.2 hhead) horderable hreaches)
    | inr htail =>
      exact hrest.assigned v row htail horderable ((h.reaches (hsorted _ htail)).2 hreaches)
  job := by
    intro v
    rw [hrest.job, h.job]
    constructor
    · intro hor
      rcases hor with (hold | ⟨row, hmem, horderable, hreaches, howing⟩) |
        ⟨row, hmem, horderable, hreaches, howing⟩
      · exact .inl hold
      · exact .inr ⟨row, List.mem_cons.2 (.inl (List.mem_singleton.1 hmem)), horderable, hreaches,
          howing⟩
      · exact .inr ⟨row, List.mem_cons_of_mem _ hmem, horderable,
          (h.reaches (hsorted _ hmem)).1 hreaches, howing⟩
    · intro hor
      rcases hor with hold | ⟨row, hmem, horderable, hreaches, howing⟩
      · exact .inl (.inl hold)
      · cases List.mem_cons.1 hmem with
        | inl hhead =>
          exact .inl (.inr ⟨row, List.mem_singleton.2 hhead, horderable, hreaches, howing⟩)
        | inr htail =>
          exact .inr ⟨row, htail, horderable, (h.reaches (hsorted _ htail)).2 hreaches, howing⟩

theorem Advanced.run (hsorted : rest.Pairwise fun a b => a.1 < b.1)
    (hkeys : ∀ row ∈ rest, strip row.1 = row.1)
    (hpresent : ∀ row ∈ rest, (st.db.latch.lookup row.1).isSome)
    (h : rest.foldlM (reconcileRow now required) st = .ok st') : Advanced required st rest st' := by
  induction rest generalizing st with
  | nil =>
    cases h
    exact Advanced.nil
  | cons row rest ih =>
    obtain ⟨k, r⟩ := row
    rw [List.foldlM_cons, bind_eq_ok] at h
    obtain ⟨mid, hfirst, hrest⟩ := h
    have hstep := Advanced.step (hkeys _ List.mem_cons_self) (hpresent _ List.mem_cons_self) hfirst
    have hpair := List.pairwise_cons.1 hsorted
    refine hstep.cons (ih hpair.2 ?_ ?_ hrest) hpair.1
    · exact fun other hother => hkeys other (List.mem_cons_of_mem _ hother)
    · exact fun other hother => hstep.rows _ (hpresent other (List.mem_cons_of_mem _ hother))

/-! ## The whole transaction -/

theorem legacyRows_lockCursor (now : Time) (db : RefreshDb) :
    legacyRows (lockCursor now db).2 = legacyRows db := by
  rw [legacyRows, lockCursor_latch]
  rfl

theorem mem_legacyRows : row ∈ legacyRows db ↔
    db.latch.lookup row.1 = some row.2 ∧ row.2.generation = none := by
  obtain ⟨version, row⟩ := row
  simp [legacyRows]

theorem legacyRows_sorted (db : RefreshDb) : (legacyRows db).Pairwise fun a b => a.1 < b.1 :=
  db.latch.rows_sorted.filter _

/-- The versions the cursor may end at. -/
def Candidate (db : RefreshDb) (version : String) : Prop :=
  db.version = some version ∨ ∃ row, (version, row) ∈ legacyRows db ∧ Orderable version

/-- What is to hold of the legacy rows of `db`. -/
structure ReconcilesLegacy (now : Time) (required : Finset DataType) (db : RefreshDb) : Prop where
  raises : (∃ message, reconcileLegacy now required db = .error (.valueError message)) ↔
    ∃ version row, (version, row) ∈ legacyRows db ∧ row.refreshedAt = none ∧ ¬Orderable version
  cursor : ∀ st, reconcileLegacy now required db = .ok st →
    ∀ version, st.current = some version ↔ IsGreatest {u | Candidate db u} version
  generations : ∀ st, reconcileLegacy now required db = .ok st →
    ∀ version row, (version, row) ∈ legacyRows db → Orderable version →
      (∀ prior, db.version = some prior → prior ≤ version) → (st.db.latchGeneration version).isSome
  job : ∀ st, reconcileLegacy now required db = .ok st →
    ∀ version, st.current = some version → db.job.lookup version = none →
      ((st.db.job.lookup version).isSome ↔
        ∃ row, (version, row) ∈ legacyRows db ∧ row.refreshedAt = none ∧ required ⊆ row.signals)

theorem advanced_of_reconcileLegacy (hkeys : ∀ row ∈ legacyRows db, strip row.1 = row.1)
    (h : reconcileLegacy now required db = .ok st) :
    Advanced required ⟨(lockCursor now db).1.generation, (lockCursor now db).1.version,
      (lockCursor now db).2⟩ (legacyRows db) st := by
  unfold reconcileLegacy at h
  simp only [legacyRows_lockCursor] at h
  apply Advanced.run (legacyRows_sorted db) hkeys _ h
  intro row hrow
  simp only [lockCursor_latch]
  simp [(mem_legacyRows.1 hrow).1]

theorem lockCursor_version (now : Time) (db : RefreshDb) :
    (lockCursor now db).1.version = db.version := by
  cases hcursor : db.cursor with
  | none => simp [lockCursor, RefreshDb.version, hcursor]
  | some c => simp [lockCursor, RefreshDb.version, hcursor]

/-- A refused row is unfinished, or completed under eight digits that name no date. -/
theorem refused_iff {version : String} {row : LatchRow} : Refused (version, row) ↔
    (row.refreshedAt = none ∧ ¬Orderable version) ∨
      (row.refreshedAt ≠ none ∧ isVersionText version = true ∧ ¬Orderable version) := by
  simp only [Refused]
  cases row.refreshedAt with
  | none => simp
  | some at' => simp [and_comm]

/-- On a key that is stripped, eight digits that name no date are what `ordered_version` rejects. -/
theorem not_orderable_iff (hstrip : strip v = v) (htext : isVersionText v = true) :
    ¬Orderable v ↔ namesDate v = false := by
  constructor
  · intro hnot
    rw [← Bool.not_eq_true]
    exact fun hdate => hnot (orderable_of_ok (orderedVersion_eq_ok.2 ⟨hstrip, htext, hdate⟩))
  · intro hdate horderable
    have hnames := (orderedVersion_eq_ok.1 (orderedVersion_of_orderable hstrip horderable)).2.2
    rw [hdate] at hnames
    cases hnames

theorem not_refused_of_reconcileLegacy (h : reconcileLegacy now required db = .ok st) :
    ∀ row ∈ legacyRows db, ¬Refused row := by
  unfold reconcileLegacy at h
  simp only [legacyRows_lockCursor] at h
  exact forall_not_refused h

/-- The transaction raises of itself exactly if some row is refused. -/
theorem raises_iff (hdatabase : ∀ e, reconcileLegacy now required db = .error e →
    ∃ message, e = .valueError message) :
    (∃ message, reconcileLegacy now required db = .error (.valueError message)) ↔
      ∃ row ∈ legacyRows db, Refused row := by
  constructor
  · intro h
    unfold reconcileLegacy at h
    simp only [legacyRows_lockCursor] at h
    exact exists_refused h
  · rintro ⟨row, hmem, hrefused⟩
    cases hrun : reconcileLegacy now required db with
    | error e =>
      obtain ⟨message, rfl⟩ := hdatabase e hrun
      exact ⟨message, rfl⟩
    | ok st => exact absurd hrefused (not_refused_of_reconcileLegacy hrun row hmem)

/-- Without a database error, the legacy rows are reconciled as they should be exactly if a
    completed row under eight digits that name no date never stands alone: some unfinished row
    fails the transaction as well. -/
theorem legacy_reconciliation_iff (now : Time) (required : Finset DataType) (db : RefreshDb)
    (hkeys : ∀ row ∈ legacyRows db, row.1 ≠ "" ∧ strip row.1 = row.1)
    (hdatabase : ∀ e, reconcileLegacy now required db = .error e → ∃ message, e = .valueError message) :
    ReconcilesLegacy now required db ↔
      ((∃ version row, (version, row) ∈ legacyRows db ∧ row.refreshedAt ≠ none ∧
          isVersionText version = true ∧ namesDate version = false) →
        ∃ version row, (version, row) ∈ legacyRows db ∧ row.refreshedAt = none ∧
          ¬Orderable version) := by
  have hstripped : ∀ row ∈ legacyRows db, strip row.1 = row.1 := fun row hrow => (hkeys row hrow).2
  have hraises := raises_iff hdatabase
  have hmalformed : ∀ version row, (version, row) ∈ legacyRows db → isVersionText version = true →
      (¬Orderable version ↔ namesDate version = false) := fun version row hmem htext =>
    not_orderable_iff (hstripped (version, row) hmem) htext
  constructor
  · -- a refused row that is completed names no date, so another one has to raise
    intro h hcompleted
    obtain ⟨version, row, hmem, hstamp, htext, hdate⟩ := hcompleted
    apply h.raises.1
    rw [hraises]
    exact ⟨(version, row), hmem,
      refused_iff.2 (.inr ⟨hstamp, htext, (hmalformed version row hmem htext).2 hdate⟩)⟩
  · intro hcondition
    constructor
    case raises =>
      rw [hraises]
      constructor
      · intro h
        obtain ⟨⟨version, row⟩, hmem, hrefused⟩ := h
        rcases refused_iff.1 hrefused with hunfinished | ⟨hstamp, htext, hnot⟩
        · exact ⟨version, row, hmem, hunfinished⟩
        · exact hcondition ⟨version, row, hmem, hstamp, htext, (hmalformed version row hmem htext).1 hnot⟩
      · intro h
        obtain ⟨version, row, hmem, hstamp, hnot⟩ := h
        exact ⟨(version, row), hmem, refused_iff.2 (.inl ⟨hstamp, hnot⟩)⟩
    case cursor =>
      intro st hrun version
      have hadvanced := advanced_of_reconcileLegacy hstripped hrun
      -- the loop starts at the version of the locked cursor
      have hcandidate : ∀ u, Candidate db u ↔ ((lockCursor now db).1.version = some u ∨
          ∃ row, (u, row) ∈ legacyRows db ∧ Orderable u) := by
        intro u
        rw [lockCursor_version]
        rfl
      have hupper : ∀ u, Candidate db u → ∃ w, st.current = some w ∧ u ≤ w := by
        intro u hu
        exact hadvanced.covers u ((hcandidate u).1 hu)
      constructor
      · intro hcurrent
        refine ⟨(hcandidate version).2 (hadvanced.from_rows version hcurrent), ?_⟩
        intro u hu
        obtain ⟨w, hw, hle⟩ := hupper u hu
        rw [hcurrent] at hw
        cases hw
        exact hle
      · intro hgreatest
        obtain ⟨w, hw, hle⟩ := hupper version hgreatest.1
        have hback := hgreatest.2 ((hcandidate w).2 (hadvanced.from_rows w hw))
        rw [hw, le_antisymm hback hle]
    case generations =>
      intro st hrun version row hmem horderable hprior
      apply (advanced_of_reconcileLegacy hstripped hrun).assigned version row hmem horderable
      intro c hc
      exact hprior c ((lockCursor_version now db).symm.trans hc)
    case job =>
      intro st hrun version hcurrent hnone
      have hadvanced := advanced_of_reconcileLegacy hstripped hrun
      rw [hadvanced.job]
      simp only [lockCursor_job, hnone, Option.isSome_none, Bool.false_eq_true, false_or]
      constructor
      · intro h
        obtain ⟨row, hmem, _, _, howing⟩ := h
        exact ⟨row, hmem, howing⟩
      · intro h
        obtain ⟨row, hmem, howing⟩ := h
        refine ⟨row, hmem, ?_, ?_, howing⟩
        · -- The loop went on past this unfinished row, so its version is a dump version.
          by_contra hnot
          exact not_refused_of_reconcileLegacy hrun _ hmem (refused_iff.2 (.inl ⟨howing.1, hnot⟩))
        · intro c hc
          obtain ⟨w, hw, hle⟩ := hadvanced.covers c (.inl hc)
          rw [hcurrent] at hw
          cases hw
          exact hle

/-! ## Rows of the inline protocol -/

/-- A completed fallback key, a completed dump, and an unfinished one that is complete. -/
def mixedLatch : RefreshDb :=
  ⟨none, (((Table.empty.insert "2024-01-01T00:00:00" ⟨dataTypes, ∅, some 1, none, 0, 0⟩).insert
    "20240101" ⟨dataTypes, ∅, some 1, none, 0, 0⟩).insert
    "20240201" ⟨dataTypes, ∅, none, none, 0, 0⟩), .empty⟩

theorem legacy_reconciliation_iff_mixed :
    ReconcilesLegacy 5 dataTypes mixedLatch ↔
      ((∃ version row, (version, row) ∈ legacyRows mixedLatch ∧ row.refreshedAt ≠ none ∧
          isVersionText version = true ∧ namesDate version = false) →
        ∃ version row, (version, row) ∈ legacyRows mixedLatch ∧ row.refreshedAt = none ∧
          ¬Orderable version) := by
  refine legacy_reconciliation_iff 5 dataTypes mixedLatch ?_ ?_
  · decide +kernel
  · intro e he
    have hcommits : (reconcileLegacy 5 dataTypes mixedLatch).isOk = true := by decide +kernel
    rw [he] at hcommits
    cases hcommits

/-- One completed row under eight digits that name no day. -/
def completedLatch : RefreshDb :=
  ⟨none, Table.empty.insert "20260231" ⟨dataTypes, ∅, some 1, none, 0, 0⟩, .empty⟩

/-- It owes no work, and fails the transaction all the same. -/
theorem completed_row_blocks_reconciliation :
    (∀ row ∈ legacyRows completedLatch, row.1 ≠ "" ∧ strip row.1 = row.1 ∧ row.2.refreshedAt = some 1) ∧
    (∃ message, reconcileLegacy 5 dataTypes completedLatch = .error (.valueError message)) ∧
    ¬ReconcilesLegacy 5 dataTypes completedLatch := by
  have hrows : ∀ row ∈ legacyRows completedLatch,
      row.1 ≠ "" ∧ strip row.1 = row.1 ∧ row.2.refreshedAt = some 1 := by decide +kernel
  have hraises : ∃ message, reconcileLegacy 5 dataTypes completedLatch =
      .error (.valueError message) := by
    refine ⟨"durable extraction_complete has an invalid YYYYMMDD dump version", ?_⟩
    with_unfolding_all rfl
  refine ⟨hrows, hraises, ?_⟩
  intro h
  obtain ⟨version, row, hmem, hunfinished, _⟩ := h.raises.1 hraises
  have hstamp := (hrows _ hmem).2.2
  rw [hunfinished] at hstamp
  cases hstamp

end Tableinator.Durable
