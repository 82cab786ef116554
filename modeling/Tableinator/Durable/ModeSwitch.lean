import Tableinator.Durable.Deployment

/-! # Switching between the modes

A stamped latch owes no refresh, so no live job should be left for its version.  The
durable protocol alone keeps that: it schedules a job only for an unstamped latch, and
stamps a latch only with the completion of its job.  The inline pass breaks it when it
stamps a version whose job is live, which is what a change of mode between the commit
of the last signal and its ack leads to. -/

namespace Tableinator.Durable

open Relational Effect Effect.Program

variable {now : Time} {grant : Option Token} {required : Finset DataType} {db db' : RefreshDb}
  {v version : String}

/-- A stamped latch has no live job. -/
def Idle (db : RefreshDb) : Prop := ∀ v, (db.refreshed v).isSome → ¬db.LiveJob v

/-- Every job that appears belongs to a version without a stamp. -/
def Schedules (db db' : RefreshDb) : Prop :=
  ∀ v, db.job.lookup v = none → (db'.job.lookup v).isSome → db.refreshed v = none

/-! ## Writes -/

theorem lookup_insert_of_dead {row new : JobRow}
    (hlive : ∀ old, db.job.lookup version = some old → old.state.live = true)
    (hrow : db.job.lookup v = some row) (hdead : row.state.live = false) :
    (db.job.insert version new).lookup v = some row := by
  have hv : v ≠ version := by
    intro hv
    subst hv
    rw [hlive row hrow] at hdead
    cases hdead
  exact (Table.lookup_insert_of_ne _ _ hv).trans hrow

theorem JobRow.live_of_leased {row : JobRow} (h : row.state = .leased) : row.state.live = true := by
  rw [h]
  rfl

/-- A job that is done stays as it is. -/
theorem Write.dead (h : Write now grant db db') {row : JobRow}
    (hrow : db.job.lookup v = some row) (hdead : row.state.live = false) :
    db'.job.lookup v = some row := by
  cases h with
  | openCursor _ => exact hrow
  | advance _ _ _ =>
    rw [advanceCursor_job, hrow, Option.map_some, hdead, Bool.and_false]
    rfl
  | assign _ _ => exact hrow
  | schedule _ _ habsent _ _ _ =>
    refine lookup_insert_of_dead ?_ hrow hdead
    intro old hold
    rw [habsent] at hold
    cases hold
  | signal _ _ _ _ _ => exact hrow
  | veto _ _ => exact hrow
  | supersede hold hlive _ =>
    refine lookup_insert_of_dead ?_ hrow hdead
    intro old hold'
    rw [hold] at hold'
    cases hold'
    exact hlive
  | retry _ _ hold hleased =>
    refine lookup_insert_of_dead ?_ hrow hdead
    intro old hold'
    rw [hold] at hold'
    cases hold'
    exact JobRow.live_of_leased hleased
  | lease _ _ _ hold hlive _ =>
    refine lookup_insert_of_dead ?_ hrow hdead
    intro old hold'
    rw [hold] at hold'
    cases hold'
    exact hlive
  | renew hold hheld _ =>
    refine lookup_insert_of_dead ?_ hrow hdead
    intro old hold'
    rw [hold] at hold'
    cases hold'
    exact JobRow.live_of_leased (JobRow.leased_of_heldBy hheld)

theorem Writes.dead (h : Writes now grant db db') {row : JobRow}
    (hrow : db.job.lookup v = some row) (hdead : row.state.live = false) :
    db'.job.lookup v = some row := by
  induction h with
  | refl => exact hrow
  | tail _ hwrite ih => exact hwrite.dead ih hdead

/-- A transaction that schedules only unstamped versions keeps stamped latches idle. -/
theorem Writes.idle (h : Writes now grant db db') (hidle : Idle db) (hnew : Schedules db db') :
    Idle db' := by
  rintro v hstamped ⟨job', hjob', hlive'⟩
  rw [h.unpublished.1] at hstamped
  cases hjob : db.job.lookup v with
  | none =>
    have hunstamped := hnew v hjob (Option.isSome_iff_exists.2 ⟨job', hjob'⟩)
    rw [hunstamped] at hstamped
    cases hstamped
  | some job =>
    cases hlive : job.state.live with
    | true => exact hidle v hstamped ⟨job, hjob, hlive⟩
    | false =>
      rw [h.dead hjob hlive] at hjob'
      cases hjob'
      rw [hlive] at hlive'
      cases hlive'

theorem Completion.idle {job : ClaimedJob} (h : Completion now job db db') (hidle : Idle db) :
    Idle db' := by
  cases h with
  | mk _ _ _ _ _ _ _ _ =>
    rintro v hstamped ⟨job', hjob', hlive'⟩
    by_cases hv : v = job.version
    · subst hv
      rw [Table.lookup_insert_self] at hjob'
      cases hjob'
      cases hlive'
    · unfold RefreshDb.refreshed at hstamped
      rw [Table.lookup_insert_of_ne _ _ hv] at hstamped hjob'
      exact hidle v hstamped ⟨job', hjob', hlive'⟩

/-! ## Keys without padding

`ordered_version` strips the key it reads, so a padded key would be accepted under
another name.  No statement of either mode writes one with a signal. -/

namespace Deployment

theorem Trimmed.insert {new : LatchRow} (h : Trimmed db)
    (hnew : strip version = version ∨ new.signals = ∅) :
    Trimmed { db with latch := db.latch.insert version new } := by
  intro v row hrow
  rw [Table.lookup_insert] at hrow
  split at hrow
  · next hv =>
    cases hrow
    rw [hv]
    exact hnew
  · exact h v row hrow

theorem Trimmed.veto (h : Trimmed db) (version : String) (dataType : DataType) :
    Trimmed (recordPurgeVeto now version dataType db) := by
  refine h.insert ?_
  cases hprior : db.latch.lookup version with
  | none => exact .inr rfl
  | some row => exact h version row hprior

theorem Trimmed.assign (h : Trimmed db) (generation : Nat) (version : String) :
    Trimmed (assignGeneration now generation version db) := by
  intro v row' hrow'
  rw [assignGeneration_lookup] at hrow'
  obtain ⟨row, hrow, rfl⟩ := Option.map_eq_some_iff.1 hrow'
  have hkey := h v row hrow
  split
  · exact hkey
  · exact hkey

end Deployment

open Deployment (Trimmed)

theorem strip_of_orderedVersion (h : orderedVersion version = .ok version) :
    strip version = version :=
  (orderedVersion_eq_ok.1 h).1

theorem Write.trimmed (h : Write now grant db db') (htrimmed : Trimmed db) : Trimmed db' := by
  cases h with
  | assign _ _ => exact htrimmed.assign _ _
  | signal _ _ _ _ hversion => exact htrimmed.insert (.inl (strip_of_orderedVersion hversion))
  | veto version dataType => exact htrimmed.veto version dataType
  | openCursor _ => exact htrimmed
  | advance _ _ _ => exact htrimmed
  | schedule _ _ _ _ _ _ => exact htrimmed
  | supersede _ _ _ => exact htrimmed
  | retry _ _ _ _ => exact htrimmed
  | lease _ _ _ _ _ _ => exact htrimmed
  | renew _ _ _ => exact htrimmed

theorem Writes.trimmed (h : Writes now grant db db') (htrimmed : Trimmed db) : Trimmed db' := by
  induction h with
  | refl => exact htrimmed
  | tail _ hwrite ih => exact hwrite.trimmed ih

theorem Completion.trimmed {job : ClaimedJob} (h : Completion now job db db')
    (htrimmed : Trimmed db) : Trimmed db' := by
  cases h with
  | @mk latch row _ hlatch _ _ _ _ _ _ =>
    have hkey : strip job.version = job.version ∨ latch.signals = ∅ := htrimmed _ _ hlatch
    have hinsert : ∀ new : LatchRow, new.signals = latch.signals →
        Trimmed { db with latch := db.latch.insert job.version new } := by
      intro new hsignals
      rw [← hsignals] at hkey
      exact htrimmed.insert hkey
    exact hinsert _ rfl

/-! ## What the signal transactions schedule -/

theorem upsertJob_lookup_of_ne {generation : Nat} {fresh : Bool}
    (h : upsertJob now version generation db = .ok (fresh, db')) (hv : v ≠ version) :
    db'.job.lookup v = db.job.lookup v := by
  unfold upsertJob at h
  split at h
  · cases h
    rfl
  · split at h
    · cases h
    · split at h
      · cases h
      · cases h
        exact Table.lookup_insert_of_ne _ _ hv

/-- The job a transaction that ends with `_upsert_job` may have added. -/
theorem upsertJob_schedules {generation : Nat} {fresh : Bool} {mid : RefreshDb}
    (hmid : Schedules db mid) (hunstamped : db.refreshed version = none)
    (h : upsertJob now version generation mid = .ok (fresh, db')) : Schedules db db' := by
  intro v habsent hsome
  by_cases hv : v = version
  · rw [hv]
    exact hunstamped
  · rw [upsertJob_lookup_of_ne h hv] at hsome
    exact hmid v habsent hsome

theorem Schedules.of_isSome {mid : RefreshDb} (h : Schedules db mid)
    (hsame : ∀ v, (db'.job.lookup v).isSome = (mid.job.lookup v).isSome) : Schedules db db' := by
  intro v habsent hsome
  rw [hsame] at hsome
  exact h v habsent hsome

theorem Schedules.refl (db : RefreshDb) : Schedules db db := by
  intro v habsent hsome
  rw [habsent] at hsome
  cases hsome

theorem mem_legacyRows_lockCursor {k : String} {r : LatchRow}
    (h : (k, r) ∈ legacyRows (lockCursor now db).2) : db.latch.lookup k = some r := by
  simp only [legacyRows, List.mem_filter, Table.mem_rows] at h
  rw [lockCursor_latch] at h
  exact h.1

theorem reconcileLegacy_schedules {st : Reconciling} (hne : required.Nonempty)
    (htrimmed : Trimmed db) (h : reconcileLegacy now required db = .ok st) :
    Schedules db st.db := by
  have hlock : Schedules db (lockCursor now db).2 :=
    (Schedules.refl db).of_isSome fun v => by rw [lockCursor_job]
  refine foldlM_invariant (fun st => Schedules db st.db) ?_ hlock h
  rintro st ⟨k, r⟩ st' hmem hst hrow
  have hread := mem_legacyRows_lockCursor hmem
  rcases reconcileRow_cases hrow with ⟨rfl, _⟩ | ⟨version, hversion, _, _, _, hwritten⟩
  · exact hst
  · have haccept := hst.of_isSome (accept_job_isSome now version st)
    have hassign : Schedules db (assignGeneration now (st.accept now version).generation version
        (st.accept now version).db) := haccept
    rcases hwritten with ⟨hsame, _⟩ | ⟨hnone, hcomplete, fresh, hjob⟩
    · rw [hsame]
      exact hassign
    · -- A complete row has signals, so its key is the version it is accepted under.
      have hkey : k = version := by
        rcases htrimmed k r hread with hstrip | hempty
        · exact hstrip.symm.trans (orderedVersion_eq_ok.1 hversion).1
        · obtain ⟨dataType, hmem⟩ := hne
          have hsignal := hcomplete hmem
          rw [hempty] at hsignal
          cases hsignal
      subst hkey
      refine upsertJob_schedules hassign ?_ hjob
      rw [RefreshDb.refreshed, hread, Option.bind_some, hnone]

theorem reconcileLegacyLatches_schedules (hne : required.Nonempty) (htrimmed : Trimmed db)
    (h : reconcileLegacyLatches now required db = .ok db') : Schedules db db' := by
  obtain ⟨st, hst, rfl⟩ := map_eq_ok.1 h
  exact reconcileLegacy_schedules hne htrimmed hst

theorem signal_refreshedAt (now : Time) (version : String) (dataType : DataType)
    (st : Reconciling) :
    (st.signal now version dataType).1.refreshedAt = st.db.refreshed version := by
  unfold Reconciling.signal upsertSignal
  simp only [signalledRow_refreshed, accept_latch]
  rfl

theorem recordDurableSignal_schedules {versionValue : String} {dataType : DataType}
    {result : DurableSignal} (htrimmed : Trimmed db)
    (h : recordDurableSignal now versionValue dataType required db = .ok (result, db')) :
    Schedules db db' := by
  obtain ⟨version, st, _, hmem, hst, haccept⟩ := recordDurableSignal_eq_ok.1 h
  have hreconcile := reconcileLegacy_schedules ⟨dataType, hmem⟩ htrimmed hst
  have hsignal : Schedules db (st.signal now version dataType).2 :=
    hreconcile.of_isSome (accept_job_isSome now version st)
  rcases acceptSignal_cases haccept with ⟨rfl, _⟩ | ⟨_, hnone, fresh, hjob⟩
  · exact hsignal
  · refine upsertJob_schedules hsignal ?_ hjob
    rw [signal_refreshedAt] at hnone
    have hwrites : Writes now none db st.db := (reconcileLegacy_writes hst).1
    rw [← hwrites.unpublished.1]
    exact hnone

/-! ## The worker schedules nothing -/

theorem claimDueJob_isSome (now : Time) (owner : String) (token : Token) (locked : String → Bool)
    (db : RefreshDb) (v : String) :
    ((claimDueJob now owner token locked db).2.job.lookup v).isSome =
      (db.job.lookup v).isSome := by
  have hjob := lockCursor_job now db
  unfold claimDueJob
  split
  next cursor db₁ hlock =>
  rw [hlock] at hjob
  dsimp only at hjob
  have hinsert : ∀ version row new, dueJob now locked db₁ = some (version, row) →
      ((db₁.job.insert version new).lookup v).isSome = (db.job.lookup v).isSome := by
    intro version row new hdue
    obtain ⟨hrow, _⟩ := dueJob_mem hdue
    rw [Table.lookup_insert, ← hjob]
    split
    · next hv => simp [hv, hrow]
    · rfl
  split
  · rw [hjob]
  · split
    · rw [hjob]
    · next version row hdue =>
      split
      · exact hinsert version row _ hdue
      · split
        · exact hinsert version row _ hdue
        · exact hinsert version row _ hdue

theorem heartbeat_isSome (now : Time) (job : ClaimedJob) (db : RefreshDb) (v : String) :
    ((heartbeat now job db).2.job.lookup v).isSome = (db.job.lookup v).isSome := by
  unfold heartbeat
  split
  · simp
  · rfl

namespace Cluster

variable {R : Type} {s s' : Cluster R} {token : Token}

/-- A transaction that completes no pass schedules only unstamped versions. -/
theorem Transacts.schedules {db : RefreshDb} (h : Transacts dataTypes s db) (htrimmed : Trimmed s.db) :
    Schedules s.db db ∨ ∃ job, Completion s.now job s.db db := by
  cases h with
  | nothing => exact .inl (.refl _)
  | signal hsignal => exact .inl (recordDurableSignal_schedules htrimmed hsignal)
  | reconcile hreconcile =>
    exact .inl (reconcileLegacyLatches_schedules ⟨.artists, mem_dataTypes _⟩ htrimmed hreconcile)
  | veto version dataType => exact .inl (.refl _)
  | claim owner token locked => exact .inl ((Schedules.refl _).of_isSome (claimDueJob_isSome _ _ _ _ _))
  | renew job => exact .inl ((Schedules.refl _).of_isSome (heartbeat_isSome _ _ _))
  | complete hcommit => exact .inr ⟨_, beforeCommit_completion hcommit⟩
  | settle job error =>
    refine .inl ((Schedules.refl _).of_isSome fun v => ?_)
    simp [markAfterFailure]

theorem step_idle {a : Action R} (hclaims : s.Claims) (htrimmed : Trimmed s.db)
    (hidle : Idle s.db) (h : s.step dataTypes a = some s') : Idle s'.db := by
  rcases (step_transacts h).2.schedules htrimmed with hschedules | ⟨job, hcompletion⟩
  · rcases step_tables hclaims h with ⟨grant, hwrites⟩ | ⟨job, hcompletion⟩
    · exact hwrites.idle hidle hschedules
    · exact hcompletion.idle hidle
  · exact hcompletion.idle hidle

theorem step_trimmed {a : Action R} (hclaims : s.Claims) (htrimmed : Trimmed s.db)
    (h : s.step dataTypes a = some s') : Trimmed s'.db := by
  rcases step_tables hclaims h with ⟨grant, hwrites⟩ | ⟨job, hcompletion⟩
  · exact hwrites.trimmed htrimmed
  · exact hcompletion.trimmed htrimmed

end Cluster

/-! ## Handlers -/

namespace Deployment

/-- A call that names a latch key names it stripped. -/
def keyed : {ρ : Type} → ServiceCall ρ → Prop
  | _, .inr (.recordExtractionSignal version) => strip version = version
  | _, _ => True

/-- Every call of a handler is keyed. -/
abbrev Keyed {α : Type} (p : Service α) (Q : Unit → Except Failure α → Prop) (s : Unit) : Prop :=
  p.wp (fun _ _ op => keyed op) (fun _ _ _ _ => ()) Q s

theorem keyed_inBoth {α : Type} {p : Handler α} {Q : Unit → Except Failure α → Prop} {s : Unit}
    (h : ∀ s r, Q s r) : Keyed (inBoth p) Q s :=
  (wp_lift _ _ _ _).2 (wp_of_forall (fun _ _ _ => trivial) h)

theorem strip_extractionLatchKey {d : Delivery} {version : String}
    (h : extractionLatchKey d = some version) : strip version = version := by
  unfold extractionLatchKey at h
  split at h
  · cases h
    exact strip_idem _
  · split at h
    · cases h
      exact strip_idem _
    · cases h

theorem keyed_signalAndRefresh {version : String} (h : strip version = version) :
    Keyed (signalAndRefresh version) (fun _ _ => True) () := by
  refine (wp_bind _ _ _ _).2 (keyed_inBoth ?_)
  rintro _ (e | admission)
  · trivial
  · simp [keyed, h]

theorem keyed_refreshInline (d : Delivery) : Keyed (refreshInline d) (fun _ _ => True) () := by
  refine (wp_bind _ _ _ _).2 (keyed_inBoth ?_)
  rintro _ (e | pool)
  · trivial
  refine (wp_bind _ _ _ _).2 (keyed_inBoth ?_)
  rintro _ (e | declared)
  · trivial
  refine (wp_ite _ _ _ _ _).2 ⟨fun _ => trivial, fun _ => ?_⟩
  cases hkey : extractionLatchKey d with
  | none => trivial
  | some version =>
    refine (wp_tryCatch _ _ _ _).2 (wp_mono (keyed_signalAndRefresh (strip_extractionLatchKey hkey)) ?_)
    rintro _ (e | ok) _
    · trivial
    · trivial

theorem keyed_purgeAndRefresh (d : Delivery) :
    Keyed (purgeAndRefresh d) (fun _ _ => True) () := by
  refine (wp_bind _ _ _ _).2 (keyed_inBoth ?_)
  rintro _ (e | reason)
  · trivial
  refine (wp_bind _ _ _ _).2 (keyed_inBoth ?_)
  rintro _ (e | purgeOk)
  · trivial
  refine (wp_ite _ _ _ _ _).2 ⟨fun _ => keyed_inBoth fun _ _ => trivial, fun _ => ?_⟩
  refine (wp_bind _ _ _ _).2 (wp_mono (keyed_refreshInline d) ?_)
  rintro _ (e | refreshOk) _
  · trivial
  · exact (wp_ite _ _ _ _ _).2
      ⟨fun _ => keyed_inBoth fun _ _ => trivial, fun _ => keyed_inBoth fun _ _ => trivial⟩

theorem keyed_processExtractionCompleteInline (d : Delivery) :
    Keyed (processExtractionCompleteInline d) (fun _ _ => True) () := by
  refine (wp_bind _ _ _ _).2 (keyed_inBoth ?_)
  rintro _ (e | processor)
  · trivial
  have hrest : ∀ flushed, Keyed (if !flushed then inBoth (await (.nack true)) else purgeAndRefresh d)
      (fun _ _ => True) () := by
    intro flushed
    exact (wp_ite _ _ _ _ _).2
      ⟨fun _ => keyed_inBoth fun _ _ => trivial, fun _ => keyed_purgeAndRefresh d⟩
  refine (wp_ite _ _ _ _ _).2
    ⟨fun _ => (wp_bind _ _ _ _).2 (keyed_inBoth ?_), fun _ => hrest true⟩
  rintro _ (e | flushed)
  · trivial
  · exact hrest flushed

theorem keyed_process (mode : RefreshMode) (d : Delivery) :
    Keyed (mode.process d) (fun _ _ => True) () := by
  cases mode with
  | durable => exact keyed_inBoth fun _ _ => trivial
  | inline =>
    refine (wp_bind _ _ _ _).2 (keyed_inBoth ?_)
    rintro _ (e | shutdown)
    · trivial
    refine (wp_ite _ _ _ _ _).2 ⟨fun _ => trivial, fun _ => ?_⟩
    refine (wp_tryCatch _ _ _ _).2 (wp_mono (keyed_processExtractionCompleteInline d) ?_)
    rintro _ (e | ok) _
    · exact keyed_inBoth fun _ _ => trivial
    · trivial

/-! ## Calls -/

theorem call_perform_writes (now : Time) {ρ : Type} (op : Call ρ) (d : Delivery)
    (answer : Answer) (htrimmed : Trimmed db) :
    Writes now none db (op.perform now d answer db).2 ∧
      Schedules db (op.perform now d answer db).2 := by
  cases op with
  | recordDurableSignal version dataType =>
    simp only [Call.perform]
    split
    · split
      · next signal db' hsignal =>
        exact ⟨recordDurableSignal_writes hsignal, recordDurableSignal_schedules htrimmed hsignal⟩
      · exact ⟨.refl, .refl db⟩
    · exact ⟨.refl, .refl db⟩
  | recordPurgeVeto version =>
    simp only [Call.perform]
    split
    · exact ⟨.single (.veto _ _), .refl db⟩
    · exact ⟨.refl, .refl db⟩
  | _ => exact ⟨.refl, .refl db⟩

/-- What one call does to the tables: a durable transaction, or a latch write that
    leaves the cursor and the jobs alone. -/
inductive Performs (now : Time) (answer : Answer) (dataType : DataType) (db : RefreshDb) :
    {ρ : Type} → ServiceCall ρ → RefreshDb → Prop where
  | durable {ρ : Type} {op : ServiceCall ρ} {db' : RefreshDb} : Writes now none db db' →
      Schedules db db' → Performs now answer dataType db op db'
  | signal (version : String) : Performs now answer dataType db
      (.inr (.recordExtractionSignal version) : ServiceCall ExtractionLatch)
      (Durable.recordExtractionSignal now version dataType db).2
  | stamp (version : String) : answer.takesEffect = true → Performs now answer dataType db
      (.inr (.refreshDerivedRelations version) : ServiceCall Unit)
      (markExtractionRefreshed now version db)

theorem performs (now : Time) {ρ : Type} (op : ServiceCall ρ) (d : Delivery) (answer : Answer)
    (htrimmed : Trimmed db) :
    Performs now answer d.dataType db op (ServiceCall.perform now d answer db op).2 := by
  match ρ, op with
  | _, .inl op =>
    have hcall := call_perform_writes now op d answer htrimmed
    cases op with
    | purgeWasVetoed version =>
      simp only [ServiceCall.perform]
      split
      · exact .durable .refl (.refl db)
      · exact .durable .refl (.refl db)
    | _ => exact .durable hcall.1 hcall.2
  | _, .inr (.recordExtractionSignal version) =>
    simp only [ServiceCall.perform, InlineCall.perform]
    split
    · exact .signal version
    · exact .durable .refl (.refl db)
  | _, .inr (.refreshDerivedRelations version) =>
    simp only [ServiceCall.perform, InlineCall.perform]
    split
    · next heffect => exact .stamp version heffect
    · exact .durable .refl (.refl db)

theorem markExtractionRefreshed_refreshed (now : Time) (version v : String) (db : RefreshDb) :
    (markExtractionRefreshed now version db).refreshed v =
      if v = version then (db.latch.lookup v).map fun _ => now else db.refreshed v := by
  simp only [markExtractionRefreshed, RefreshDb.refreshed, Table.lookup_update]
  cases db.latch.lookup v with
  | none => simp
  | some row =>
    by_cases hv : v = version
    · simp [hv]
    · simp [hv]

theorem recordExtractionSignal_refreshed (now : Time) (version v : String) (dataType : DataType)
    (db : RefreshDb) :
    (Durable.recordExtractionSignal now version dataType db).2.refreshed v = db.refreshed v :=
  refreshed_insert (signalledRow_refreshed _ _ _ _) v

theorem Trimmed.stamp (h : Trimmed db) (version : String) :
    Trimmed (markExtractionRefreshed now version db) := by
  intro v row' hrow'
  simp only [markExtractionRefreshed, Table.lookup_update] at hrow'
  obtain ⟨row, hrow, rfl⟩ := Option.map_eq_some_iff.1 hrow'
  have hkey := h v row hrow
  split
  · exact hkey
  · exact hkey

variable {R : Type} {answer : Answer} {dataType : DataType}

theorem Performs.trimmed {ρ : Type} {op : ServiceCall ρ}
    (h : Performs now answer dataType db op db') (htrimmed : Trimmed db) (hkeyed : keyed op) :
    Trimmed db' := by
  cases h with
  | durable hwrites _ => exact hwrites.trimmed htrimmed
  | signal version => exact htrimmed.insert (.inl hkeyed)
  | stamp version _ => exact htrimmed.stamp version

theorem Performs.claims {ρ : Type} {op : ServiceCall ρ} {c : Cluster R} {relations : R}
    (h : Performs c.now answer dataType c.db op db') (hclaims : c.Claims) :
    Cluster.Claims { c with db := db', relations := relations } := by
  have hsame : ∀ {db' : RefreshDb}, db'.cursor = c.db.cursor → db'.job = c.db.job →
      ∀ token worker, c.workers token = some worker → Claimed db' c.issued token worker.job := by
    intro db' hcursor hjob token worker hworker
    obtain ⟨htoken, hissued, hreached, hrow, hlease⟩ := hclaims.claimed token worker hworker
    refine ⟨htoken, hissued, ?_, ?_, ?_⟩
    · unfold RefreshDb.generation
      rw [hcursor]
      exact hreached
    · rw [hjob]
      exact hrow
    · rw [hjob]
      exact hlease
  cases h with
  | durable hwrites _ =>
    have hdurable := Loader.claims_of_writes hclaims hwrites
    exact ⟨hdurable.claimed, hdurable.spent⟩
  | signal version => exact ⟨hsame rfl rfl, hclaims.spent⟩
  | stamp version _ => exact ⟨hsame rfl rfl, hclaims.spent⟩

/-- A call keeps stamped latches idle, when it stamps no version with a live job. -/
theorem Performs.idle {ρ : Type} {op : ServiceCall ρ}
    (h : Performs now answer dataType db op db') (hidle : Idle db)
    (hstamps : ∀ v, ServiceCall.stamps answer op = some v → ¬db.LiveJob v) : Idle db' := by
  cases h with
  | durable hwrites hnew => exact hwrites.idle hidle hnew
  | signal version =>
    intro v hstamped
    rw [recordExtractionSignal_refreshed] at hstamped
    exact hidle v hstamped
  | stamp version heffect =>
    intro v hstamped
    rw [markExtractionRefreshed_refreshed] at hstamped
    split at hstamped
    · next hv =>
      subst hv
      exact hstamps v (by simp [ServiceCall.stamps, heffect])
    · exact hidle v hstamped

/-! ## Runs -/

/-- What every run keeps, in whatever order the modes follow each other. -/
structure Sound (s : Deployment R) : Prop where
  claims : s.cluster.Claims
  trimmed : Trimmed s.cluster.db
  handlings : ∀ h ∈ s.handlings, Keyed h.program (fun _ _ => True) ()

variable {s s' : Deployment R}

theorem Starts.sound (h : s.Starts) : s.Sound where
  claims := h.cluster.claims
  trimmed := h.trimmed
  handlings := by
    intro handling hmem
    rw [h.handlings] at hmem
    cases hmem

theorem Starts.idle (h : s.Starts) : Idle s.cluster.db := by
  rintro v _ ⟨job, hjob, _⟩
  rw [h.tables.job] at hjob
  cases hjob

/-- The call an answer step performs. -/
theorem answerStep_performs {index : Nat} {answer : ServiceAnswer R} {h : Handling}
    (hsound : s.Sound) (hmem : s.handlings[index]? = some h)
    (hstep : s.answerStep index answer h = some s') :
    ∃ (ρ : Type) (op : ServiceCall ρ), h.stamps answer.toAnswer = ServiceCall.stamps answer.toAnswer op ∧
      Performs s.cluster.now answer.toAnswer h.delivery.dataType s.cluster.db op s'.cluster.db ∧
      s'.Sound := by
  obtain ⟨id, d, vetoed, program⟩ := h
  have hkeyed := hsound.handlings _ (List.mem_of_getElem? hmem)
  cases program with
  | done _ => cases hstep
  | raise _ => cases hstep
  | @call ρ op k =>
    have hperforms := performs s.cluster.now op d answer.toAnswer hsound.trimmed
    simp only [answerStep, Option.some.injEq] at hstep
    subst hstep
    refine ⟨ρ, op, rfl, hperforms, hperforms.claims hsound.claims,
      hperforms.trimmed hsound.trimmed hkeyed.1, ?_⟩
    intro handling hmem
    rcases List.mem_or_eq_of_mem_set hmem with hold | rfl
    · exact hsound.handlings handling hold
    · exact hkeyed.2 _

theorem step_sound {event : ServiceEvent R} (hsound : s.Sound) (hstep : s.step event = some s') :
    s'.Sound := by
  cases event with
  | protocol action =>
    obtain ⟨cluster, hcluster, rfl⟩ := Option.map_eq_some_iff.1 hstep
    exact ⟨Cluster.step_claims hsound.claims hcluster,
      Cluster.step_trimmed hsound.claims hsound.trimmed hcluster, hsound.handlings⟩
  | deliver mode d =>
    cases hstep
    refine ⟨hsound.claims, hsound.trimmed, ?_⟩
    intro handling hmem
    rcases List.mem_cons.1 hmem with rfl | hold
    · exact keyed_process mode d
    · exact hsound.handlings handling hold
  | answer index answer =>
    obtain ⟨h, hmem, hanswer⟩ := Option.bind_eq_some_iff.1 hstep
    obtain ⟨_, _, _, _, hnext⟩ := answerStep_performs hsound hmem hanswer
    exact hnext
  | cancel index =>
    cases hstep
    exact ⟨hsound.claims, hsound.trimmed,
      fun handling hmem => hsound.handlings handling (List.mem_of_mem_eraseIdx hmem)⟩
  | restart =>
    cases hstep
    refine ⟨⟨?_, ?_⟩, hsound.trimmed, ?_⟩
    · intro token worker hworker
      cases hworker
    · intro job hjob
      exact ⟨(hsound.claims.spent job hjob).1, rfl⟩
    · intro handling hmem
      cases hmem

theorem step_idle {event : ServiceEvent R} (hsound : s.Sound) (hidle : Idle s.cluster.db)
    (hok : StampsIdle s event) (hstep : s.step event = some s') : Idle s'.cluster.db := by
  cases event with
  | protocol action =>
    obtain ⟨cluster, hcluster, rfl⟩ := Option.map_eq_some_iff.1 hstep
    exact Cluster.step_idle hsound.claims hsound.trimmed hidle hcluster
  | deliver mode d =>
    cases hstep
    exact hidle
  | answer index answer =>
    obtain ⟨h, hmem, hanswer⟩ := Option.bind_eq_some_iff.1 hstep
    obtain ⟨ρ, op, hstamps, hperforms, _⟩ := answerStep_performs hsound hmem hanswer
    refine hperforms.idle hidle ?_
    intro v hv
    exact hok h v hmem (hstamps.trans hv)
  | cancel index =>
    cases hstep
    exact hidle
  | restart =>
    cases hstep
    exact hidle

theorem run_idle (hstart : s.Starts) (hrun : Run StampsIdle s s') :
    s'.Sound ∧ Idle s'.cluster.db := by
  induction hrun with
  | refl => exact ⟨hstart.sound, hstart.idle⟩
  | tail _ hstep ih =>
    obtain ⟨event, hok, hevent⟩ := hstep
    exact ⟨step_sound ih.1 hevent, step_idle ih.1 ih.2 hok hevent⟩

/-- While inline passes commit only for versions without a live job, no mix of restarts
    and redeliveries leaves a job for a stamped version. -/
theorem stamped_version_owes_no_job (hstart : s.Starts) (hrun : Run StampsIdle s s')
    {row : LatchRow} {job : JobRow} (hrow : s'.cluster.db.latch.lookup v = some row)
    (hstamped : row.refreshedAt.isSome) (hjob : s'.cluster.db.job.lookup v = some job) :
    job.state ≠ .pending ∧ job.state ≠ .retry ∧ job.state ≠ .leased := by
  have hidle := (run_idle hstart hrun).2 v
  have hlive : ¬job.state.live = true := by
    intro hlive
    refine hidle ?_ ⟨job, hjob, hlive⟩
    rw [RefreshDb.refreshed, hrow]
    exact hstamped
  cases hstate : job.state <;> simp_all [JobState.live]

theorem boot_starts : Starts (boot .empty 0 : Deployment Nat) where
  cluster := Cluster.boot_initial _ _
  tables := ⟨rfl, fun _ => rfl, by simp [boot, Cluster.boot, RefreshDb.empty]⟩
  trimmed := by simp [Trimmed, boot, Cluster.boot, RefreshDb.empty]
  handlings := rfl
  purges := rfl
  acks := rfl

instance (v : String) (db : RefreshDb) : Decidable (db.LiveJob v) :=
  decidable_of_iff (∃ job ∈ db.job.lookup v, job.state.live = true) Iff.rfl

instance (s : Deployment R) : (event : ServiceEvent R) → Decidable (StampsIdle s event)
  | .answer index answer =>
    decidable_of_iff (∀ v ∈ (s.handlings[index]?).bind fun h => h.stamps answer.toAnswer,
      ¬s.cluster.db.LiveJob v) <| by
        simp only [StampsIdle, Option.mem_def, Option.bind_eq_some_iff]
        exact ⟨fun h h' v hmem hstamps => h v ⟨h', hmem, hstamps⟩,
          fun h v hv => hv.elim fun h' hstamps => h h' v hstamps.1 hstamps.2⟩
  | .protocol _ => isTrue trivial
  | .deliver _ _ => isTrue trivial
  | .cancel _ => isTrue trivial
  | .restart => isTrue trivial

/-- A delivery handled in a mode, with as many of its calls answered. -/
def handle (mode : RefreshMode) (dataType : DataType) (calls : Nat) : List (ServiceEvent Nat) :=
  .deliver mode ⟨dataType, "20240101", "2024-01-02", none⟩ ::
    List.replicate calls (.answer 0 ⟨Loader.smooth, 0⟩)

/-- A version is signalled in durable mode and superseded by the next one; the process restarts
    in inline mode, and a redelivery stamps the older version. -/
def supersededThenStamped : List (ServiceEvent Nat) :=
  handle .durable .artists 15 ++ (handle .durable .labels 15 ++ (handle .durable .masters 15 ++
    (handle .durable .releases 15 ++
      (List.map .protocol [.signal "20240201" .artists, .signal "20240201" .labels,
          .signal "20240201" .masters, .signal "20240201" .releases] ++
        (.restart :: handle .inline .releases 14)))))

theorem stamped_version_owes_no_job_switched :
    ∃ (s' : Deployment Nat) (row : LatchRow) (job : JobRow), Run StampsIdle (boot .empty 0) s' ∧
      s'.cluster.db.latch.lookup "20240101" = some row ∧ row.refreshedAt = some 0 ∧
      s'.cluster.db.job.lookup "20240101" = some job ∧
      job.state ≠ .pending ∧ job.state ≠ .retry ∧ job.state ≠ .leased := by
  have heval : (runWhile StampsIdle (boot .empty 0) supersededThenStamped).map
      (fun s : Deployment Nat =>
        ((s.cluster.db.latch.lookup "20240101").map LatchRow.refreshedAt,
          (s.cluster.db.job.lookup "20240101").isSome)) = some (some (some 0), true) := by
    decide +kernel
  obtain ⟨s', hs', hread⟩ := Option.map_eq_some_iff.1 heval
  obtain ⟨hlatch, hsome⟩ := Prod.mk.inj hread
  obtain ⟨row, hrow, hstamped⟩ := Option.map_eq_some_iff.1 hlatch
  obtain ⟨job, hjob⟩ := Option.isSome_iff_exists.1 hsome
  have hrun : Run StampsIdle (boot .empty 0) s' := run_of_runWhile hs'
  refine ⟨s', row, job, hrun, hrow, hstamped, hjob, ?_⟩
  exact stamped_version_owes_no_job boot_starts hrun hrow (by rw [hstamped]; rfl) hjob

/-! ## A stranded job -/

/-- A job that no run completes: its latch is stamped already. -/
def Stranded (v : String) (db : RefreshDb) : Prop :=
  (db.refreshed v).isSome ∧ db.completed v = false

theorem Stranded.of_unpublished (h : Stranded v db) (hsame : Unpublished db db') :
    Stranded v db' := by
  unfold Stranded
  rw [hsame.1, hsame.2]
  exact h

theorem Stranded.of_completion {job : ClaimedJob} (h : Stranded v db)
    (hcompletion : Completion now job db db') : Stranded v db' := by
  cases hcompletion with
  | @mk latch row _ hlatch _ hnone _ _ _ _ =>
    have hv : v ≠ job.version := by
      rintro rfl
      have hstamped := h.1
      rw [RefreshDb.refreshed, hlatch, Option.bind_some, hnone] at hstamped
      cases hstamped
    unfold Stranded RefreshDb.refreshed RefreshDb.completed
    rw [Table.lookup_insert_of_ne _ _ hv, Table.lookup_insert_of_ne _ _ hv]
    exact h

theorem Stranded.of_performs {ρ : Type} {op : ServiceCall ρ} (h : Stranded v db)
    (hperforms : Performs now answer dataType db op db') : Stranded v db' := by
  cases hperforms with
  | durable hwrites _ => exact h.of_unpublished hwrites.unpublished
  | signal version =>
    refine ⟨?_, h.2⟩
    rw [recordExtractionSignal_refreshed]
    exact h.1
  | stamp version _ =>
    refine ⟨?_, h.2⟩
    rw [markExtractionRefreshed_refreshed]
    split
    · have hstamped := h.1
      unfold RefreshDb.refreshed at hstamped
      cases hrow : db.latch.lookup v with
      | none => simp [hrow] at hstamped
      | some row => rfl
    · exact h.1

theorem step_stranded {event : ServiceEvent R} (hsound : s.Sound) (h : Stranded v s.cluster.db)
    (hstep : s.step event = some s') : Stranded v s'.cluster.db := by
  cases event with
  | protocol action =>
    obtain ⟨cluster, hcluster, rfl⟩ := Option.map_eq_some_iff.1 hstep
    rcases Cluster.step_tables hsound.claims hcluster with ⟨grant, hwrites⟩ | ⟨job, hcompletion⟩
    · exact h.of_unpublished hwrites.unpublished
    · exact h.of_completion hcompletion
  | deliver mode d =>
    cases hstep
    exact h
  | answer index answer =>
    obtain ⟨handling, hmem, hanswer⟩ := Option.bind_eq_some_iff.1 hstep
    obtain ⟨_, _, _, hperforms, _⟩ := answerStep_performs hsound hmem hanswer
    exact h.of_performs hperforms
  | cancel index =>
    cases hstep
    exact h
  | restart =>
    cases hstep
    exact h

theorem run_sound {ok : Deployment R → ServiceEvent R → Prop} (hsound : s.Sound)
    (hrun : Run ok s s') : s'.Sound := by
  induction hrun with
  | refl => exact hsound
  | tail _ hstep ih =>
    obtain ⟨event, _, hevent⟩ := hstep
    exact step_sound ih hevent

theorem run_stranded {ok : Deployment R → ServiceEvent R → Prop} (hsound : s.Sound)
    (h : Stranded v s.cluster.db) (hrun : Run ok s s') : Stranded v s'.cluster.db := by
  induction hrun with
  | refl => exact h
  | tail hprefix hstep ih =>
    obtain ⟨event, _, hevent⟩ := hstep
    exact step_stranded (run_sound hsound hprefix) ih hevent

/-- The last signal commits its job in durable mode, the process restarts in inline mode
    before the ack, and the redelivery runs the pass. -/
def switchBeforeAck : List (ServiceEvent Nat) :=
  handle .durable .artists 15 ++ (handle .durable .labels 15 ++ (handle .durable .masters 15 ++
    (handle .durable .releases 13 ++ (.restart :: handle .inline .releases 14))))

/-- Back in durable mode, a worker claims the job and fails at its late fence. -/
def attempt (token : Token) : List (ServiceEvent Nat) :=
  [.restart, .protocol (.claim "worker" token fun _ => false), .protocol (.start token),
    .protocol (.acquire token), .protocol (.finish token), .protocol (.commit token),
    .protocol (.settle token)]

/-- The states of the job and its latch that the run is about. -/
def outlook (s : Deployment Nat) : Option JobState × Option String × Bool :=
  (((s.cluster.db.job.lookup "20240101").map JobRow.state),
    ((s.cluster.db.job.lookup "20240101").bind JobRow.lastError),
    (s.cluster.db.refreshed "20240101").isSome)

/-- The latch is stamped, the job is claimed, fenced and put back for a retry, and no run
    from there ever completes it. -/
theorem switch_before_ack_strands_job :
    ∃ s s' : Deployment Nat, Run (fun _ _ => True) (boot .empty 0) s ∧
      outlook s = (some .pending, none, true) ∧ Run (fun _ _ => True) s s' ∧
      outlook s' = (some .retry, some "lease_lost_or_superseded", true) ∧
      ∀ t, Run (fun _ _ => True) s' t → (t.cluster.db.refreshed "20240101").isSome ∧
        t.cluster.db.completed "20240101" = false := by
  have hswitch : ((boot .empty 0).runEvents switchBeforeAck).map outlook =
      some (some .pending, none, true) := by
    decide +kernel
  have hattempt : ((boot .empty 0).runEvents (switchBeforeAck ++ attempt 1)).map
      (fun s => (outlook s, s.cluster.db.completed "20240101")) =
      some ((some .retry, some "lease_lost_or_superseded", true), false) := by
    decide +kernel
  obtain ⟨s, hs, houtlook⟩ := Option.map_eq_some_iff.1 hswitch
  rw [runEvents_append, hs, Option.bind_some] at hattempt
  obtain ⟨s', hs', houtlook'⟩ := Option.map_eq_some_iff.1 hattempt
  obtain ⟨houtlook', hopen⟩ := Prod.mk.inj houtlook'
  have hrun : Run (fun _ _ => True) (boot .empty 0) s := run_of_runEvents (fun _ _ _ => trivial) hs
  have hrun' : Run (fun _ _ => True) s s' := run_of_runEvents (fun _ _ _ => trivial) hs'
  refine ⟨s, s', hrun, houtlook, hrun', houtlook', ?_⟩
  have hsound := run_sound boot_starts.sound (hrun.trans hrun')
  have hstamped : (s'.cluster.db.refreshed "20240101").isSome = true := congrArg (·.2.2) houtlook'
  intro t ht
  exact run_stranded hsound ⟨hstamped, hopen⟩ ht

end Deployment

end Tableinator.Durable
