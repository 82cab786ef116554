import Tableinator.Durable.Fencing

/-! # Source order

Generations order the accepted extractions as their versions do.  `Ordered` is the
invariant of the three relations that every write keeps once it holds, and it holds
of tables that carry only latch rows of the inline protocol. -/

namespace Tableinator.Durable

open Relational

variable {now : Time} {grant : Option Token} {db db' : RefreshDb}

/-- The generation column of a latch row. -/
def RefreshDb.latchGeneration (db : RefreshDb) (version : String) : Option Nat :=
  (db.latch.lookup version).bind LatchRow.generation

structure Ordered (db : RefreshDb) : Prop where
  valid : ∀ v, db.version = some v → orderedVersion v = .ok v
  latchValid : ∀ v g, db.latchGeneration v = some g → orderedVersion v = .ok v
  order : ∀ v v' g g', db.latchGeneration v = some g → db.latchGeneration v' = some g' →
    (g < g' ↔ v < v')
  reached : ∀ v g, db.latchGeneration v = some g →
    g ≤ db.generation ∧ ∃ u, db.version = some u ∧ v ≤ u
  current : ∀ v g, db.latchGeneration v = some g → (g = db.generation ↔ db.version = some v)
  jobLatch : ∀ v row, db.job.lookup v = some row → db.latchGeneration v = some row.generation
  jobLive : ∀ v row, db.job.lookup v = some row → row.state.live = true →
    row.generation = db.generation
  jobDone : ∀ v row, db.job.lookup v = some row → row.state.live = false →
    row.generation < db.generation ∨ (row.state = .completed ∧ (db.refreshed v).isSome)

/-- Tables that hold only latch rows without a generation. -/
structure Legacy (db : RefreshDb) : Prop where
  cursor : db.cursor = none
  job : ∀ v, db.job.lookup v = none
  latch : ∀ v row, db.latch.lookup v = some row → row.generation = none

theorem Legacy.ordered (h : Legacy db) : Ordered db := by
  have hnone : ∀ v, db.latchGeneration v = none := by
    intro v
    unfold RefreshDb.latchGeneration
    cases hrow : db.latch.lookup v with
    | none => rfl
    | some row => exact h.latch v row hrow
  constructor
  · intro v hv
    simp [RefreshDb.version, h.cursor] at hv
  · intro v g hg
    simp [hnone] at hg
  · intro v v' g g' hg
    simp [hnone] at hg
  · intro v g hg
    simp [hnone] at hg
  · intro v g hg
    simp [hnone] at hg
  · intro v row hrow
    simp [h.job] at hrow
  · intro v row hrow
    simp [h.job] at hrow
  · intro v row hrow
    simp [h.job] at hrow

/-! ## Latch writes -/

/-- A latch write of the protocol changes no generation, or assigns the cursor's
    generation to the row of the cursor's version. -/
def Assigns (db : RefreshDb) (latch' : Table String LatchRow) : Prop :=
  ∀ v, (latch'.lookup v).bind LatchRow.generation = db.latchGeneration v ∨
    (db.version = some v ∧ db.latchGeneration v = none ∧
      (latch'.lookup v).bind LatchRow.generation = some db.generation)

/-- The row of the cursor's version compares with any other row as the cursor does. -/
theorem Ordered.cursor_order (h : Ordered db) {v u : String} {g : Nat}
    (hu : db.version = some u) (hg : db.latchGeneration v = some g) :
    (g < db.generation ↔ v < u) ∧ ¬db.generation < g ∧ ¬u < v := by
  obtain ⟨hle, w, hw, hvw⟩ := h.reached v g hg
  rw [hu] at hw
  cases hw
  have hcurrent := h.current v g hg
  rw [hu, Option.some.injEq] at hcurrent
  refine ⟨?_, hle.not_gt, hvw.not_gt⟩
  rw [lt_iff_le_and_ne, lt_iff_le_and_ne]
  simp only [hle, hvw, true_and, ne_eq, not_iff_not]
  exact hcurrent.trans eq_comm

theorem Ordered.of_assigns (h : Ordered db) {latch' : Table String LatchRow}
    (hassigns : Assigns db latch')
    (hrefreshed : ∀ v, (db.refreshed v).isSome →
      ((latch'.lookup v).bind LatchRow.refreshedAt).isSome) :
    Ordered { db with latch := latch' } := by
  -- A generation read after the write was there before, or is the cursor's.
  have hread : ∀ v g, (latch'.lookup v).bind LatchRow.generation = some g →
      db.latchGeneration v = some g ∨ (db.version = some v ∧ g = db.generation) := by
    intro v g hg
    rcases hassigns v with hsame | ⟨hversion, _, hnew⟩
    · exact .inl (hsame.symm.trans hg)
    · rw [hnew] at hg
      cases hg
      exact .inr ⟨hversion, rfl⟩
  constructor
  · exact h.valid
  · intro v g hg
    rcases hread v g hg with hold | ⟨hversion, _⟩
    · exact h.latchValid v g hold
    · exact h.valid v hversion
  · intro v v' g g' hg hg'
    rcases hread v g hg with hold | ⟨hversion, rfl⟩
    · rcases hread v' g' hg' with hold' | ⟨hversion', rfl⟩
      · exact h.order v v' g g' hold hold'
      · exact (h.cursor_order hversion' hold).1
    · rcases hread v' g' hg' with hold' | ⟨hversion', rfl⟩
      · have hcursor := h.cursor_order hversion hold'
        simp [hcursor.2.1, hcursor.2.2]
      · rw [hversion] at hversion'
        cases hversion'
        simp
  · intro v g hg
    rcases hread v g hg with hold | ⟨hversion, rfl⟩
    · exact h.reached v g hold
    · exact ⟨le_rfl, v, hversion, le_rfl⟩
  · intro v g hg
    rcases hread v g hg with hold | ⟨hversion, rfl⟩
    · exact h.current v g hold
    · exact ⟨fun _ => hversion, fun _ => rfl⟩
  · intro v row hrow
    have hold := h.jobLatch v row hrow
    rcases hassigns v with hsame | ⟨_, hnone, _⟩
    · exact hsame.trans hold
    · rw [hold] at hnone
      cases hnone
  · exact h.jobLive
  · intro v row hrow hdone
    rcases h.jobDone v row hrow hdone with hlt | ⟨hcompleted, hstamped⟩
    · exact .inl hlt
    · exact .inr ⟨hcompleted, hrefreshed v hstamped⟩

theorem latchGeneration_insert {version : String} {new : LatchRow} (v : String) :
    ((db.latch.insert version new).lookup v).bind LatchRow.generation =
      if v = version then new.generation else db.latchGeneration v := by
  rw [Table.lookup_insert]
  split
  · rfl
  · rfl

/-- One latch row written over, with the generation it had or, at the cursor's
    version, possibly the cursor's. -/
theorem Ordered.latch_insert (h : Ordered db) {version : String} {new : LatchRow}
    (hgeneration : new.generation = db.latchGeneration version ∨
      (db.version = some version ∧
        new.generation = (db.latchGeneration version).or (some db.generation)))
    (hrefreshed : (db.refreshed version).isSome → new.refreshedAt.isSome) :
    Ordered { db with latch := db.latch.insert version new } := by
  refine h.of_assigns ?_ ?_
  · intro v
    rw [latchGeneration_insert]
    by_cases hv : v = version
    · subst hv
      rw [if_pos rfl]
      rcases hgeneration with hsame | ⟨hversion, hnew⟩
      · exact .inl hsame
      · cases hold : db.latchGeneration v with
        | some g => exact .inl (by simp [hnew, hold])
        | none => exact .inr ⟨hversion, rfl, by simp [hnew, hold]⟩
    · rw [if_neg hv]
      exact .inl rfl
  · intro v hstamped
    rw [Table.lookup_insert]
    split
    · next hv => exact hrefreshed (hv ▸ hstamped)
    · exact hstamped

theorem assignGeneration_assigns {c : Cursor} {version : String} (hc : db.cursor = some c)
    (hversion : c.version = some version) :
    Assigns db (assignGeneration now c.generation version db).latch := by
  have hgeneration : db.generation = c.generation := by simp [RefreshDb.generation, hc]
  intro v
  rw [assignGeneration_lookup]
  unfold RefreshDb.latchGeneration
  cases hrow : db.latch.lookup v with
  | none => exact .inl rfl
  | some row =>
    rw [Option.map_some, Option.bind_some, Option.bind_some]
    split
    · next hassigned =>
      obtain ⟨rfl, hnone⟩ := hassigned
      exact .inr ⟨by simp [RefreshDb.version, hc, hversion], hnone, by rw [hgeneration]⟩
    · exact .inl rfl

theorem signalledRow_generation (now : Time) (generation : Option Nat) (dataType : DataType)
    (prior : Option LatchRow) :
    (signalledRow now generation dataType prior).generation =
      (prior.bind LatchRow.generation).or generation := by
  cases prior with
  | none => rfl
  | some row => rfl

theorem vetoedRow_generation (now : Time) (dataType : DataType) (prior : Option LatchRow) :
    (vetoedRow now dataType prior).generation = prior.bind LatchRow.generation := by
  cases prior with
  | none => rfl
  | some row => rfl

/-! ## Job writes -/

theorem Ordered.job_insert (h : Ordered db) {version : String} {new : JobRow}
    (hlatch : db.latchGeneration version = some new.generation)
    (hlive : new.state.live = true → new.generation = db.generation)
    (hdone : new.state.live = false → new.generation < db.generation ∨
      (new.state = .completed ∧ (db.refreshed version).isSome)) :
    Ordered { db with job := db.job.insert version new } := by
  refine ⟨h.valid, h.latchValid, h.order, h.reached, h.current, ?_, ?_, ?_⟩
  · intro v row hrow
    rw [Table.lookup_insert] at hrow
    split at hrow
    · next hv =>
      cases hrow
      rw [hv]
      exact hlatch
    · exact h.jobLatch v row hrow
  · intro v row hrow
    rw [Table.lookup_insert] at hrow
    split at hrow
    · cases hrow
      exact hlive
    · exact h.jobLive v row hrow
  · intro v row hrow
    rw [Table.lookup_insert] at hrow
    split at hrow
    · next hv =>
      cases hrow
      rw [hv]
      exact hdone
    · exact h.jobDone v row hrow

/-- A live job rewritten as a live job of the same generation. -/
theorem Ordered.job_relive (h : Ordered db) {version : String} {row new : JobRow}
    (hrow : db.job.lookup version = some row) (hlive : row.state.live = true)
    (hnew : new.state.live = true) (hsame : new.generation = row.generation) :
    Ordered { db with job := db.job.insert version new } := by
  refine h.job_insert ?_ ?_ ?_
  · rw [hsame]
    exact h.jobLatch version row hrow
  · intro _
    rw [hsame]
    exact h.jobLive version row hrow hlive
  · intro hdead
    rw [hnew] at hdead
    cases hdead

/-- A live job is the job of the version the cursor stands at. -/
theorem Ordered.live_current (h : Ordered db) {version : String} {row : JobRow}
    (hrow : db.job.lookup version = some row) (hlive : row.state.live = true) :
    db.version = some version :=
  (h.current version _ (h.jobLatch version row hrow)).1 (h.jobLive version row hrow hlive)

theorem current_of_version {v : String} (h : db.version = some v) :
    db.current = some (db.generation, some v) := by
  unfold RefreshDb.version at h
  unfold RefreshDb.current RefreshDb.generation
  cases hc : db.cursor with
  | none => simp [hc] at h
  | some c => simpa [hc] using h

theorem Ordered.advance (h : Ordered db) {c : Cursor} {version : String}
    (hc : db.cursor = some c) (hvalid : orderedVersion version = .ok version) (hnewer : c.version.all (· < version) = true) :
    Ordered (advanceCursor now (c.generation + 1) version db) := by
  have hgeneration : db.generation = c.generation := by simp [RefreshDb.generation, hc]
  have hbelow : ∀ v g, db.latchGeneration v = some g → g < c.generation + 1 ∧ v < version := by
    intro v g hg
    obtain ⟨hle, u, hu, hvu⟩ := h.reached v g hg
    refine ⟨by omega, hvu.trans_lt ?_⟩
    rcases advanceCursor_advances now hc hnewer with ⟨hsame, _⟩ | ⟨_, w, hw, hlt⟩
    · simp [RefreshDb.generation, advanceCursor, hc] at hsame
    · cases hw
      exact hlt u hu
  constructor
  · intro v hv
    cases hv
    exact hvalid
  · exact h.latchValid
  · exact h.order
  · intro v g hg
    obtain ⟨hlt, hv⟩ := hbelow v g hg
    exact ⟨hlt.le, version, rfl, hv.le⟩
  · intro v g hg
    obtain ⟨hlt, hv⟩ := hbelow v g hg
    constructor
    · intro hsame
      exact absurd hsame hlt.ne
    · intro hsame
      cases hsame
      exact absurd hv (lt_irrefl _)
  · intro v row' hrow'
    rw [advanceCursor_job] at hrow'
    obtain ⟨row, hrow, rfl⟩ := Option.map_eq_some_iff.1 hrow'
    have hlatch := h.jobLatch v row hrow
    split
    · exact hlatch
    · exact hlatch
  · intro v row' hrow' hlive
    rw [advanceCursor_job] at hrow'
    obtain ⟨row, hrow, rfl⟩ := Option.map_eq_some_iff.1 hrow'
    have hlt := (hbelow v _ (h.jobLatch v row hrow)).1
    split at hlive
    · cases hlive
    · next hkept => simp [hlt, hlive] at hkept
  · intro v row' hrow' _
    rw [advanceCursor_job] at hrow'
    obtain ⟨row, hrow, rfl⟩ := Option.map_eq_some_iff.1 hrow'
    have hlt := (hbelow v _ (h.jobLatch v row hrow)).1
    refine .inl ?_
    split
    · exact hlt
    · exact hlt

/-! ## Every write -/

theorem Write.ordered (h : Ordered db) (hwrite : Write now grant db db') : Ordered db' := by
  cases hwrite with
  | openCursor hc =>
    have hversion : db.version = none := by simp [RefreshDb.version, hc]
    -- before the cursor exists no row has a generation
    have hnone : ∀ v, db.latchGeneration v = none := by
      intro v
      rw [Option.eq_none_iff_forall_ne_some]
      intro g hg
      obtain ⟨_, u, hu, _⟩ := h.reached v g hg
      rw [hversion] at hu
      cases hu
    refine ⟨?_, h.latchValid, h.order, ?_, ?_, h.jobLatch, ?_, ?_⟩
    · intro v hv
      cases hv
    · intro v g hg
      have hfalse := (hnone v).symm.trans hg
      cases hfalse
    · intro v g hg
      have hfalse := (hnone v).symm.trans hg
      cases hfalse
    · intro v row hrow
      have hfalse := (hnone v).symm.trans (h.jobLatch v row hrow)
      cases hfalse
    · intro v row hrow
      have hfalse := (hnone v).symm.trans (h.jobLatch v row hrow)
      cases hfalse
  | advance hc hvalid hnewer => exact h.advance hc hvalid hnewer
  | assign hc hversion =>
    refine h.of_assigns (assignGeneration_assigns hc hversion) ?_
    intro v hstamped
    rw [← assignGeneration_refreshed now _ _ v db] at hstamped
    exact hstamped
  | @schedule c version row hc hversion _ _ hlatch hgeneration =>
    have hcursor : db.generation = c.generation := by simp [RefreshDb.generation, hc]
    refine h.job_insert ?_ (fun _ => hcursor.symm) ?_
    · simp [RefreshDb.latchGeneration, hlatch, hgeneration, JobRow.fresh]
    · intro hdead
      cases hdead
  | @signal c current version dataType hc hcurrent hle _ =>
    have hversion : db.version = some current := by simp [RefreshDb.version, hc, hcurrent]
    have hcursor : db.generation = c.generation := by simp [RefreshDb.generation, hc]
    refine h.latch_insert ?_ ?_
    · rw [signalledRow_generation]
      -- a signal below the cursor is stamped past, one at the cursor takes its generation
      by_cases hlt : version < current
      · rw [if_pos hlt, Option.or_none]
        exact .inl rfl
      · have hsame := le_antisymm hle (not_lt.1 hlt)
        rw [if_neg hlt, ← hcursor]
        exact .inr ⟨hsame ▸ hversion, rfl⟩
    · rw [signalledRow_refreshed]
      exact id
  | veto version dataType =>
    refine h.latch_insert ?_ ?_
    · rw [vetoedRow_generation]
      exact .inl rfl
    · rw [vetoedRow_refreshed]
      exact id
  | supersede hrow hlive hcurrent =>
    -- The live job is the cursor's own, which is never superseded.
    have hsame := current_of_version (h.live_current hrow hlive)
    rw [← h.jobLive _ _ hrow hlive] at hsame
    exact absurd hsame hcurrent
  | retry _ _ hrow hleased => exact h.job_relive hrow (by rw [hleased]; rfl) rfl rfl
  | lease _ _ _ hrow hlive _ => exact h.job_relive hrow hlive rfl rfl
  | renew hrow hheld _ =>
    have hleased := JobRow.leased_of_heldBy hheld
    exact h.job_relive hrow (by rw [hleased]; rfl) (by rw [hleased]; rfl) rfl

theorem Writes.ordered (h : Ordered db) (hwrites : Writes now grant db db') : Ordered db' := by
  induction hwrites with
  | refl => exact h
  | tail _ hwrite ih => exact hwrite.ordered ih

theorem Completion.ordered {job : ClaimedJob} (h : Ordered db)
    (hcompletion : Completion now job db db') : Ordered db' := by
  cases hcompletion with
  | @mk latch row hcurrent hlatch hgeneration hnone hrow hsame _ _ =>
    let stamped : LatchRow := { latch with refreshedAt := some now, updatedAt := now }
    have hstamp : Ordered { db with latch := db.latch.insert job.version stamped } := by
      refine h.latch_insert (.inl ?_) (fun _ => rfl)
      simp [RefreshDb.latchGeneration, hlatch, stamped]
    refine hstamp.job_insert ?_ ?_ ?_
    · simp [RefreshDb.latchGeneration, hgeneration, hsame, JobRow.unlease, stamped]
    · intro hlive
      cases hlive
    · intro _
      exact .inr ⟨rfl, by simp [RefreshDb.refreshed, stamped]⟩

/-! ## Along a run -/

namespace Cluster

variable {R : Type} {required : Finset DataType} {s s' : Cluster R}

theorem step_ordered {a : Action R} (hclaims : s.Claims) (hordered : Ordered s.db)
    (h : s.step required a = some s') : Ordered s'.db := by
  rcases step_tables hclaims h with ⟨grant, hwrites⟩ | ⟨job, hcompletion⟩
  · exact hwrites.ordered hordered
  · exact hcompletion.ordered hordered

theorem run_ordered (hclaims : s.Claims) (hordered : Ordered s.db) (hrun : Run required s s') :
    Ordered s'.db := by
  induction hrun with
  | refl => exact hordered
  | tail hprefix hstep ih =>
    obtain ⟨a, ha⟩ := hstep
    exact step_ordered (run_claims hclaims hprefix) ih ha

theorem step_advances {a : Action R} (hclaims : s.Claims) (h : s.step required a = some s') :
    Advances s.db s'.db := by
  rcases step_tables hclaims h with ⟨grant, hwrites⟩ | ⟨job, hcompletion⟩
  · exact hwrites.keeps.cursor
  · have hkeeps : Keeps s.now none s.db s'.db := hcompletion.keeps
    exact hkeeps.cursor

theorem run_advances (hclaims : s.Claims) (hrun : Run required s s') : Advances s.db s'.db := by
  induction hrun with
  | refl => exact .refl _
  | tail hprefix hstep ih =>
    obtain ⟨a, ha⟩ := hstep
    exact ih.trans (step_advances (run_claims hclaims hprefix) ha)

end Cluster

theorem not_newer_self (v : Option String) : ¬Newer v v := by
  rintro ⟨u, rfl, hlt⟩
  exact lt_irrefl u (hlt u rfl)

/-- The generation never decreases, and rises exactly when the version does. -/
theorem Advances.rises (h : Advances db db') :
    db.generation ≤ db'.generation ∧
      (db.generation < db'.generation ↔ Newer db.version db'.version) := by
  refine ⟨h.generation_le, ?_⟩
  rcases h with ⟨hgeneration, hversion⟩ | ⟨hgeneration, hversion⟩
  · rw [hgeneration, hversion]
    simp [not_newer_self]
  · simp [hgeneration, hversion]

/-! ## The branch that finds the latch and the cursor apart -/

theorem orderedVersion_error {value : String} {e : DurableError}
    (h : orderedVersion value = .error e) : e ≠ generationDisagrees := by
  unfold orderedVersion at h
  dsimp only at h
  split at h
  · cases h
    simp [generationDisagrees]
  · split at h
    · cases h
      simp [generationDisagrees]
    · cases h

theorem upsertJob_error {version : String} {generation : Nat} {e : DurableError}
    (h : upsertJob now version generation db = .error e) : e ≠ generationDisagrees := by
  unfold upsertJob at h
  split at h
  · cases h
  · split at h
    · cases h
      simp [generationDisagrees]
    · split at h
      · cases h
        simp [generationDisagrees]
      · cases h

theorem reconcileRow_error {required : Finset DataType} {st : Reconciling}
    {row : String × LatchRow} {e : DurableError} (h : reconcileRow now required st row = .error e) :
    e ≠ generationDisagrees := by
  unfold reconcileRow at h
  split at h
  · cases h
  · rcases bind_eq_error.1 h with hversion | ⟨version, _, h⟩
    · exact orderedVersion_error hversion
    · split at h
      · cases h
      · split at h
        · rcases bind_eq_error.1 h with hjob | ⟨result, _, h⟩
          · exact upsertJob_error hjob
          · cases h
        · cases h

theorem reconcileLegacy_error {required : Finset DataType} {e : DurableError}
    (h : reconcileLegacy now required db = .error e) : e ≠ generationDisagrees := by
  obtain ⟨st, row, hrow⟩ := foldlM_eq_error h
  exact reconcileRow_error hrow

theorem tracks_generation {st : Reconciling} (h : st.Tracks) :
    st.db.generation = st.generation ∧ st.db.version = st.current := by
  obtain ⟨updatedAt, hc⟩ := h
  simp [RefreshDb.generation, RefreshDb.version, hc]

/-- The row a signal leaves at the cursor's version carries the cursor's generation. -/
theorem signal_generation (now : Time) {version : String} {st : Reconciling} (dataType : DataType)
    (hordered : Ordered st.db) (htracks : st.Tracks)
    (hversion : orderedVersion version = .ok version) (hsuperseded : st.supersedes version = false) :
    (st.signal now version dataType).1.generation = some (st.accept now version).generation := by
  obtain ⟨haccept, htracks'⟩ := accept_writes now none htracks hversion
  have hordered' := haccept.ordered hordered
  obtain ⟨hgeneration, hcurrent⟩ := tracks_generation htracks'
  rw [accept_current now hsuperseded] at hcurrent
  simp only [Reconciling.signal, upsertSignal, hsuperseded, signalledRow_generation]
  cases hold : (st.accept now version).db.latchGeneration version with
  | none =>
    unfold RefreshDb.latchGeneration at hold
    simp [hold]
  | some g =>
    have hsame := (hordered'.current version g hold).2 hcurrent
    unfold RefreshDb.latchGeneration at hold
    simp [hold, hsame, hgeneration]

theorem recordDurableSignal_agrees {versionValue : String} {dataType : DataType}
    {required : Finset DataType} (hordered : Ordered db) :
    recordDurableSignal now versionValue dataType required db ≠ .error generationDisagrees := by
  intro h
  unfold recordDurableSignal at h
  rcases bind_eq_error.1 h with hversion | ⟨version, hversion, h⟩
  · exact orderedVersion_error hversion rfl
  · have hversion := orderedVersion_idem hversion
    split at h
    · simp [throw, throwThe, MonadExceptOf.throw, bind, Except.bind, generationDisagrees] at h
    · rcases bind_eq_error.1 h with hreconcile | ⟨st, hst, h⟩
      · exact reconcileLegacy_error hreconcile rfl
      · obtain ⟨hwrites, htracks⟩ : Writes now none db st.db ∧ st.Tracks :=
          reconcileLegacy_writes hst
        unfold acceptSignal at h
        dsimp only at h
        split at h
        · next hcomplete =>
          simp only [Bool.and_eq_true, Bool.not_eq_true'] at hcomplete
          split at h
          · next hdisagrees =>
            exact hdisagrees (signal_generation now dataType (hwrites.ordered hordered) htracks hversion
              hcomplete.1.1)
          · exact upsertJob_error (map_eq_error.1 h) rfl
        · cases h

namespace Cluster

variable {R : Type} {required : Finset DataType} {s s' : Cluster R}

/-- The ordering of cursor, latch and job tables in every state reached from latch rows
    of the inline protocol. -/
theorem durable_tables_ordered (hinit : s.Initial) (hlegacy : Legacy s.db)
    (hrun : Run required s s') :
    (∀ s'', Run required s' s'' → s'.db.generation ≤ s''.db.generation ∧
      (s'.db.generation < s''.db.generation ↔ Newer s'.db.version s''.db.version)) ∧
    (∀ v v' row row' g g', s'.db.latch.lookup v = some row → row.generation = some g →
      s'.db.latch.lookup v' = some row' → row'.generation = some g' → (g < g' ↔ v < v')) ∧
    (∀ v row g, s'.db.latch.lookup v = some row → row.generation = some g →
      g ≤ s'.db.generation ∧ ∃ u, s'.db.version = some u ∧ v ≤ u) ∧
    (∀ v job, s'.db.job.lookup v = some job →
      ∃ row, s'.db.latch.lookup v = some row ∧ row.generation = some job.generation) ∧
    (∀ v job, s'.db.job.lookup v = some job → job.state.live = true →
      job.generation = s'.db.generation) ∧
    ∀ now versionValue dataType,
      recordDurableSignal now versionValue dataType required s'.db ≠ .error generationDisagrees := by
  have hclaims := run_claims hinit.claims hrun
  have hordered := run_ordered hinit.claims hlegacy.ordered hrun
  have hlatch : ∀ v row g, s'.db.latch.lookup v = some row → row.generation = some g →
      s'.db.latchGeneration v = some g := by
    intro v row g hrow hg
    simp [RefreshDb.latchGeneration, hrow, hg]
  refine ⟨?_, ?_, ?_, ?_, hordered.jobLive, ?_⟩
  · intro s'' hrun'
    exact (run_advances hclaims hrun').rises
  · intro v v' row row' g g' hrow hg hrow' hg'
    exact hordered.order v v' g g' (hlatch v row g hrow hg) (hlatch v' row' g' hrow' hg')
  · intro v row g hrow hg
    exact hordered.reached v g (hlatch v row g hrow hg)
  · intro v job hjob
    exact Option.bind_eq_some_iff.1 (hordered.jobLatch v job hjob)
  · intro now versionValue dataType
    exact recordDurableSignal_agrees hordered

/-- A straggler below the cursor and an unfinished latch of the inline protocol. -/
theorem durable_tables_ordered_straggler :
    ∃ s' : Cluster Nat,
      Run dataTypes (boot { RefreshDb.empty with
        latch := Table.empty.insert "20240101" (LatchRow.fresh 0) } 0) s' ∧
      s'.db.version = some "20240301" ∧ s'.db.latchGeneration "20240101" = some 1 ∧
      s'.db.latchGeneration "20240201" = none ∧ 1 ≤ s'.db.generation := by
  let legacy : RefreshDb :=
    { RefreshDb.empty with latch := Table.empty.insert "20240101" (LatchRow.fresh 0) }
  have hlegacy : Legacy legacy := by
    refine ⟨rfl, fun _ => rfl, ?_⟩
    intro v row hrow
    simp only [legacy, Table.lookup_insert] at hrow
    split at hrow
    · cases hrow
      rfl
    · cases hrow
  have heval : ((boot legacy 0).runActions dataTypes
      [.reconcile, .signal "20240301" .artists, .signal "20240201" .labels]).map (fun s =>
        (s.db.version, s.db.latchGeneration "20240101", s.db.latchGeneration "20240201")) =
      some (some "20240301", some 1, none) := by decide +kernel
  obtain ⟨s', hs', hread⟩ := Option.map_eq_some_iff.1 heval
  simp only [Prod.mk.injEq] at hread
  obtain ⟨hversion, hfirst, hstraggler⟩ := hread
  have hrun := run_of_runActions hs'
  obtain ⟨row, hrow, hgeneration⟩ := Option.bind_eq_some_iff.1 hfirst
  have hordered := durable_tables_ordered (boot_initial legacy 0) hlegacy hrun
  exact ⟨s', hrun, hversion, hfirst, hstraggler, (hordered.2.2.1 _ row 1 hrow hgeneration).1⟩

end Cluster

end Tableinator.Durable
