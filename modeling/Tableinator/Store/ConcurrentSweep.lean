import Mathlib.Data.Fintype.Option
import Tableinator.Store.Memberships

/-! # The sweep beside writes

`reconcile_additive_edges` beside any number of `process_batch` and `persist_record`
transactions on artists, under READ COMMITTED.  Its delete reads a snapshot of its own, and
takes the rows of an artist whose page it read before the artist was committed.  As long as
no artist comes between its page and the delete (`SweepSystem.Careful`), every row a stored
artist asserts is there once the sweep is committed. -/

namespace Tableinator

open Effect Relational Tableinator.Graph

/-- The sweep is the session `none`. -/
abbrev SweepSystem (ι : Type) := System (Option ι) Slot Store Statement WriteError PUnit

/-- One sweep and any number of writes, none of which has begun. -/
def sweepBeside {ι : Type} (rt : Runtime) (fuel : Nat) (committed : Store) (writes : ι → ArtistWrite) :
    SweepSystem ι :=
  System.start committed fun session => match session with
    | none => reconcileAdditiveEdges rt fuel
    | some i => (writes i).program rt

namespace SweepSystem

variable {ι : Type} (rt : Runtime)

/-- The sweep's open transaction has deleted the row. -/
def Deleted (σ : SweepSystem ι) (edge : EdgeRow .memberOf) : Prop :=
  .edge .memberOf edge ∈ (σ.sessions none).held ∧ edge ∉ (σ.sessions none).own.edges .memberOf

/-- The artists a step of the sweep is shown: those of the page it reads. -/
def shownArtists (σ : SweepSystem ι) : Action (Option ι) → List (String × Json)
  | .finish none =>
    match (σ.sessions none).running, (σ.sessions none).program with
    | some run, .call op _ => Scan.artistsRead run.snapshot op
    | _, _ => []
  | _ => []

/-- The artist asserts the row, and is committed, or written by an open transaction that has no
    insert of the row before it. -/
def CountsOn (σ : SweepSystem ι) (dataId : String) (row : EntityRow) (edge : EdgeRow .memberOf) : Prop :=
  edge ∈ asserts rt .memberOf dataId row.data ∧
    ((σ.committed.entities .artists).lookup dataId = some row ∨
      ∃ i, (σ.sessions (some i)).status = .open ∧
        ((σ.view engine (some i)).entities .artists).lookup dataId = some row ∧
        Program.Issues (fun op => ¬Inserts edge op) (σ.sessions (some i)).program)

/-- No write overtakes the sweep: where the delete takes a row, an artist that counts on it was
    shown with this payload, and did not come after the page that covers its id.  And an upsert that
    overwrites another payload than its snapshot showed finds the rows of its own in place. -/
def Respects (shown : List (String × Json)) (σ : SweepSystem ι) (i : Option ι)
    (run : Running Slot Store) : {ρ : Type} → Statement ρ → Prop
  | _, .deleteUnasserted .memberOf asserted => ∀ edge : EdgeRow .memberOf,
      edge ∈ run.snapshot.edges .memberOf → edge ∉ asserted →
      ∀ dataId row, CountsOn rt σ dataId row edge → (dataId, row.data) ∈ shown
  | _, .upsertRecord t _ incoming =>
      StoresHash t incoming.dataId incoming.hash run.snapshot →
      ¬StoresHash t incoming.dataId incoming.hash (σ.view engine i) →
      ∀ edge : EdgeRow .memberOf, edge ∈ asserts rt .memberOf incoming.dataId (.obj incoming.data) →
        edge ∈ (σ.view engine i).edges .memberOf ∧ ¬Deleted σ edge
  | _, _ => True

/-- The condition on a step. -/
def Careful (shown : List (String × Json)) (σ : SweepSystem ι) : Action (Option ι) → Prop
  | .finish i => ∀ {ρ : Type} {op : Statement ρ} {k : Except WriteError ρ → Transaction PUnit}
      {run : Running Slot Store}, (σ.sessions i).running = some run →
      (σ.sessions i).program = .call op k → Respects rt shown σ i run op
  | _ => True

end SweepSystem

open SweepSystem

/-! ## What holds in a careful run -/

section

variable {ι : Type} (rt : Runtime)

/-- A write that is open: what it stored and does not owe any more is there. -/
structure Writing (σ : SweepSystem ι) (i : ι) (d : Debt) : Prop where
  pays : d.Pays rt (σ.sessions (some i)).program (fun d _ => d.owed = [])
  present : ∀ edge : EdgeRow .memberOf, .edge .memberOf edge ∈ (σ.sessions (some i)).held →
    edge ∈ (σ.sessions (some i)).own.edges .memberOf
  payloads : ∀ dataId row,
    ((σ.view engine (some i)).entities .artists).lookup dataId = some row →
    (∃ kept, (σ.committed.entities .artists).lookup dataId = some kept ∧ kept.data = row.data) ∨
      d.upserted = true ∧ ∀ edge ∈ asserts rt .memberOf dataId row.data, edge ∈ d.owed ∨
        edge ∈ (σ.view engine (some i)).edges .memberOf ∧ ¬Deleted σ edge

/-- The sweep until it is committed: what the committed payloads assert is there for it, or it
    has still to insert it, or to read it from the document as its snapshot shows it. -/
structure Covers (shown : List (String × Json)) (σ : SweepSystem ι) (scan : Scan) : Prop where
  keeps : scan.Keeps rt (σ.sessions none).program (fun scan _ => scan = .over)
  ended : (σ.sessions none).status = .committed → scan = .over
  held : ∀ dataId data, (dataId, data) ∈ shown →
    ∀ edge ∈ asserts rt .memberOf dataId data, scan.Holds edge
  payloads : ∀ dataId row, (σ.committed.entities .artists).lookup dataId = some row →
    ∀ edge ∈ asserts rt .memberOf dataId row.data,
      edge ∈ (σ.view engine none).edges .memberOf ∨ edge ∈ scan.pending ∨
        scan.Unread dataId ∧ ∀ run, (σ.sessions none).running = some run →
          ∃ seen, (run.snapshot.entities .artists).lookup dataId = some seen ∧ seen.data = row.data

structure SweepSound [DecidableEq ι] (shown : List (String × Json)) (σ : SweepSystem ι) : Prop where
  exclusive : σ.Exclusive
  spares : ∀ t dataId, .entity t dataId ∉ (σ.sessions none).held
  writes : ∀ i, (σ.sessions (some i)).status = .open → ∃ d, Writing rt σ i d
  sweep : (σ.sessions none).status ≠ .aborted → ∃ scan, Covers rt shown σ scan

end

section

variable {ι : Type} [DecidableEq ι] {rt : Runtime} {fuel : Nat} {committed : Store}
variable {writes : ι → ArtistWrite} {σ σ' : SweepSystem ι} {i j : ι} {d : Debt} {scan : Scan}
variable {shown : List (String × Json)}

theorem sound_start (hids : (committed.entities .artists).lookup "" = none) :
    SweepSound rt [] (sweepBeside rt fuel committed writes) := by
  have hview : ∀ session : Option ι,
      (sweepBeside rt fuel committed writes).view engine session = committed :=
    fun session => view_of_held_empty rfl
  refine ⟨System.exclusive_start _ _, fun t dataId h => ?_, fun i _ => ?_, fun _ => ?_⟩
  · exact Finset.notMem_empty _ h
  · refine ⟨⟨false, []⟩, Debt.pays_program (writes i), fun edge h => ?_, fun dataId row hrow => ?_⟩
    · exact absurd h (Finset.notMem_empty _)
    · rw [hview] at hrow
      exact .inl ⟨row, hrow, rfl⟩
  · refine ⟨.counting, Scan.keeps_program fuel, fun h => ?_, fun dataId data h => ?_,
      fun dataId row hrow edge _ => ?_⟩
    · cases h
    · cases h
    · -- nothing has been read, and the scan starts before every id
      have hid : dataId ≠ "" := by
        rintro rfl
        have hnone : (committed.entities .artists).lookup "" = some row := hrow
        rw [hids] at hnone
        cases hnone
      refine .inr (.inr ⟨empty_lt hid, fun run hrun => ?_⟩)
      cases hrun

/-! ### A statement starts -/

theorem begun_session (session other : Option ι) : ∃ running,
    (σ.begun engine session).sessions other = { σ.sessions other with running := running } := by
  by_cases h : other = session
  · subst h
    exact ⟨_, System.set_sessions_self _⟩
  · exact ⟨(σ.sessions other).running, System.set_sessions_of_ne _ h⟩

omit [DecidableEq ι] in
/-- The write goes on: nothing was committed, and the sweep has deleted nothing more. -/
theorem Writing.congr (h : Writing rt σ i d) (hcommitted : σ'.committed = σ.committed)
    {running : Option (Running Slot Store)}
    (hsession : σ'.sessions (some i) = { σ.sessions (some i) with running := running })
    (hdeleted : ∀ edge, Deleted σ' edge → Deleted σ edge) : Writing rt σ' i d := by
  have hview : σ'.view engine (some i) = σ.view engine (some i) := by
    simp only [System.view, Session.view, hsession, hcommitted]
  refine ⟨?_, ?_, fun dataId row hrow => ?_⟩
  · rw [hsession]
    exact h.pays
  · rw [hsession]
    exact h.present
  · rw [hview] at hrow ⊢
    rw [hcommitted]
    refine (h.payloads dataId row hrow).imp_right fun hnew => ⟨hnew.1, fun edge hedge => ?_⟩
    exact (hnew.2 edge hedge).imp_right fun hin => ⟨hin.1, fun hgone => hin.2 (hdeleted edge hgone)⟩

theorem SweepSound.begun (h : SweepSound rt shown σ) (session : Option ι)
    (hexclusive : (σ.begun engine session).Exclusive) : SweepSound rt shown (σ.begun engine session) := by
  obtain ⟨running, hsweep⟩ := begun_session (σ := σ) session none
  have hdeleted : ∀ edge, Deleted (σ.begun engine session) edge → Deleted σ edge := by
    intro edge hgone
    rw [Deleted, hsweep] at hgone
    exact hgone
  refine ⟨hexclusive, ?_, fun i hopen => ?_, fun hlive => ?_⟩
  · rw [hsweep]
    exact h.spares
  · obtain ⟨running, hsession⟩ := begun_session (σ := σ) session (some i)
    rw [hsession] at hopen
    obtain ⟨d, hwriting⟩ := h.writes i hopen
    exact ⟨d, hwriting.congr rfl hsession hdeleted⟩
  · rw [hsweep] at hlive
    obtain ⟨scan, hcovers⟩ := h.sweep hlive
    have hview : (σ.begun engine session).view engine none = σ.view engine none := by
      simp only [System.view, Session.view, hsweep]
      rfl
    refine ⟨scan, ?_, ?_, hcovers.held, fun dataId row hrow edge hedge => ?_⟩
    · rw [hsweep]
      exact hcovers.keeps
    · rw [hsweep]
      exact hcovers.ended
    · rw [hview]
      refine (hcovers.payloads dataId row hrow edge hedge).imp_right fun hlater => ?_
      refine hlater.imp_right fun hunread => ⟨hunread.1, fun run hrun => ?_⟩
      cases session with
      | none =>
        -- the sweep's snapshot shows what is committed
        rw [System.begun, System.set_sessions_self] at hrun
        cases hrun
        refine ⟨row, ?_, rfl⟩
        rw [lookup_view, if_neg (h.spares _ _)]
        exact hrow
      | some i =>
        rw [System.begun, System.set_sessions_of_ne _ (by simp)] at hrun
        exact hunread.2 run hrun

/-! ### A statement of a write ends -/

variable {ρ : Type} {op : Statement ρ} {k : Except WriteError ρ → Transaction PUnit}
variable {run : Running Slot Store} {edge : EdgeRow .memberOf}

theorem Writing.finished (h : Writing rt σ i d) (hcall : (σ.sessions (some i)).program = .call op k)
    (hfree : σ.Free engine (some i) run op) (hrespects : Respects rt shown σ (some i) run op) :
    Writing rt (σ.finished engine (some i) run op k) i (d.next rt op (op.read run.snapshot)) := by
  have hpays := h.pays
  rw [hcall] at hpays
  obtain ⟨hallows, hrest⟩ := hpays
  have hview : (σ.finished engine (some i) run op k).view engine (some i) =
      (op.change run.snapshot run.dead).apply (σ.view engine (some i)) := view_finished
  have hdeleted : ∀ {edge}, Deleted (σ.finished engine (some i) run op k) edge → Deleted σ edge := by
    intro edge hgone
    rw [Deleted, System.finished, System.set_sessions_of_ne _ (by simp)] at hgone
    exact hgone
  have hkept : ∀ {edge : EdgeRow .memberOf}, edge ∈ (σ.view engine (some i)).edges .memberOf →
      edge ∈ ((op.change run.snapshot run.dead).apply (σ.view engine (some i))).edges .memberOf :=
    fun hedge => mem_apply_of_not_deletes (Debt.not_deletes hallows) hedge
  refine ⟨?_, fun edge hheld => ?_, fun dataId row' hrow' => ?_⟩
  · rw [System.finished, System.set_sessions_self]
    exact hrest _
  · rw [System.finished, System.set_sessions_self] at hheld ⊢
    rcases Finset.mem_union.1 hheld with hold | hwrites
    · refine hkept (mem_view.2 ?_)
      rw [if_pos hold]
      exact h.present edge hold
    · exact (Change.mem_of_writes hwrites).elim hkept id
  · rw [hview] at hrow' ⊢
    by_cases hupserts : Upserts op
    · -- before the upsert every payload in view is a committed one
      have hcommitted : ∀ {row : EntityRow}, d.upserted = false →
          ((σ.view engine (some i)).entities .artists).lookup dataId = some row →
          row.data = row'.data →
          ∃ kept, (σ.committed.entities .artists).lookup dataId = some kept ∧
            kept.data = row'.data := by
        intro row hclear hrow hdata
        rcases h.payloads dataId row hrow with ⟨kept, hkept, hsame⟩ | ⟨hupserted, _⟩
        · exact ⟨kept, hkept, hsame.trans hdata⟩
        · rw [hclear] at hupserted
          cases hupserted
      cases op with
      | upsertRecord t now incoming =>
        obtain ⟨rfl, hclear⟩ := hallows
        rcases payloads_upsertRecord hrow' with ⟨row, hrow, hdata⟩ | ⟨_, rfl, hdata, hhash⟩
        · exact .inl (hcommitted hclear hrow hdata)
        · refine .inr ⟨rfl, fun edge hedge => ?_⟩
          rw [hdata] at hedge
          simp only [Debt.next]
          -- an upsert that reports a change owes its rows, any other one has them in view
          cases hchanged : contentChanged
            ((Statement.upsertRecord .artists now incoming).read run.snapshot) with
          | true => exact .inl hedge
          | false =>
            have hstores := (contentChanged_eq_false_iff .artists now incoming run.snapshot).1 hchanged
            have hin := hrespects hstores hhash edge hedge
            exact .inr ⟨hkept hin.1, fun hgone => hin.2 (hdeleted hgone)⟩
      | upsertRecords t now rows =>
        obtain ⟨rfl, hclear⟩ := hallows
        rcases payloads_upsertRecords hrow' with ⟨row, hrow, hdata⟩ |
          ⟨_, incoming, hincoming, rfl, hdata⟩
        · exact .inl (hcommitted hclear hrow hdata)
        · refine .inr ⟨rfl, fun edge hedge => .inl ?_⟩
          rw [hdata] at hedge
          exact List.mem_flatMap.2 ⟨incoming, hincoming, hedge⟩
      | _ => exact hupserts.elim
    · obtain ⟨row, hrow, hdata⟩ := Debt.payload_kept hallows hupserts hrow'
      have hnext := @Debt.next_of_not_upserts rt d _ op (op.read run.snapshot) hupserts
      rw [← hdata]
      refine (h.payloads dataId row hrow).imp_right fun hnew => ?_
      refine ⟨hnext.1.trans hnew.1, fun edge hedge => ?_⟩
      rcases hnew.2 edge hedge with howed | ⟨hin, hspared⟩
      · refine (hnext.2 edge howed).imp_right fun hinserts => ?_
        refine ⟨mem_apply_of_inserts hinserts, fun hgone => ?_⟩
        -- a row the sweep holds is waited for
        have hfreed := hfree none (by simp) _ (hdeleted hgone).1
        rw [show engine.waits op run.snapshot run.dead (.edge .memberOf edge) = true from
          waits_of_inserts hinserts] at hfreed
        cases hfreed
      · exact .inr ⟨hkept hin, fun hgone => hspared (hdeleted hgone)⟩

theorem SweepSound.afterWrite (h : SweepSound rt shown σ) (hopen : (σ.sessions (some i)).status = .open)
    (hcall : (σ.sessions (some i)).program = .call op k) (hfree : σ.Free engine (some i) run op)
    (hrespects : Respects rt shown σ (some i) run op)
    (hexclusive : (σ.finished engine (some i) run op k).Exclusive) :
    SweepSound rt shown (σ.finished engine (some i) run op k) := by
  have hothers : ∀ {other}, other ≠ some i →
      (σ.finished engine (some i) run op k).sessions other = σ.sessions other :=
    fun hne => System.set_sessions_of_ne _ hne
  have hsweep := hothers (by simp : none ≠ some i)
  refine ⟨hexclusive, ?_, fun j hlive => ?_, fun hlive => ?_⟩
  · rw [hsweep]
    exact h.spares
  · by_cases hji : j = i
    · subst hji
      obtain ⟨d, hwriting⟩ := h.writes j hopen
      exact ⟨_, hwriting.finished hcall hfree hrespects⟩
    · have hsession := hothers (by simpa using hji : some j ≠ some i)
      rw [hsession] at hlive
      obtain ⟨d, hwriting⟩ := h.writes j hlive
      refine ⟨d, hwriting.congr rfl hsession fun edge hgone => ?_⟩
      rw [Deleted, hsweep] at hgone
      exact hgone
  · rw [hsweep] at hlive
    obtain ⟨scan, hcovers⟩ := h.sweep hlive
    refine ⟨scan, ?_, ?_, hcovers.held, ?_⟩
    · rw [hsweep]
      exact hcovers.keeps
    · rw [hsweep]
      exact hcovers.ended
    · rw [System.view, hsweep]
      exact hcovers.payloads

/-! ### A statement of the sweep ends -/

omit [DecidableEq ι] in
/-- The delete spares what an artist counts on: its page has put it into the temporary table. -/
theorem not_deletes_counted {dataId : String} {row : EntityRow} (h : Covers rt shown σ scan)
    (hallows : scan.Allows op) (hrespects : Respects rt shown σ none run op)
    (hcounts : CountsOn rt σ dataId row edge) : ¬Deletes edge run.snapshot op := by
  cases op with
  | deleteUnasserted a asserted =>
    cases a with
    | memberOf =>
      intro hdeletes
      have hshown := hrespects edge hdeletes.1 hdeletes.2 dataId row hcounts
      have hholds := h.held dataId row.data hshown edge hcounts.1
      cases scan with
      | deleting rows =>
        obtain rfl : asserted = rows := hallows
        exact hdeletes.2 hholds
      | counting => exact hallows.elim
      | reading lastId rows => exact hallows.elim
      | inserting rows => exact hallows.elim
      | _ => cases hallows
    | sameAs => exact id
  | deleteScoped r ids => cases scan <;> exact hallows.elim
  | purgeEdges r t startedAt => cases scan <;> exact hallows.elim
  | _ => exact id

theorem not_deleted_finished (hspared : ¬Deletes edge run.snapshot op) (hold : ¬Deleted σ edge) :
    ¬Deleted (σ.finished engine none run op k) edge := by
  intro hdeleted
  rw [Deleted, System.finished, System.set_sessions_self] at hdeleted
  obtain ⟨hheld, hgone⟩ := hdeleted
  have hunseen : edge ∉ (σ.view engine none).edges .memberOf :=
    fun hin => hgone (mem_apply_of_not_deletes hspared hin)
  rcases Finset.mem_union.1 hheld with hbefore | hwrites
  · refine hold ⟨hbefore, ?_⟩
    rwa [mem_view, if_pos hbefore] at hunseen
  · exact (Change.mem_of_writes hwrites).elim hunseen hgone

omit [DecidableEq ι] in
/-- A write counts on what it has stored and does not owe. -/
theorem Writing.counted (h : Writing rt σ i d) (hopen : (σ.sessions (some i)).status = .open)
    {dataId : String} {row : EntityRow} (hupserted : d.upserted = true)
    (hrow : ((σ.view engine (some i)).entities .artists).lookup dataId = some row)
    (hedge : edge ∈ asserts rt .memberOf dataId row.data) (hpaid : edge ∉ d.owed) :
    CountsOn rt σ dataId row edge :=
  ⟨hedge, .inr ⟨i, hopen, hrow, Debt.never_inserts h.pays hupserted hpaid⟩⟩

theorem Writing.beside_sweep (h : Writing rt σ i d) (hopen : (σ.sessions (some i)).status = .open)
    (hcovers : Covers rt shown σ scan) (hallows : scan.Allows op) (hrespects : Respects rt shown σ none run op) :
    Writing rt (σ.finished engine none run op k) i d := by
  have hsession : (σ.finished engine none run op k).sessions (some i) = σ.sessions (some i) :=
    System.set_sessions_of_ne _ (by simp)
  have hview : (σ.finished engine none run op k).view engine (some i) = σ.view engine (some i) := by
    rw [System.view, hsession]
    rfl
  refine ⟨?_, ?_, fun dataId row hrow => ?_⟩
  · rw [hsession]
    exact h.pays
  · rw [hsession]
    exact h.present
  · rw [hview] at hrow ⊢
    refine (h.payloads dataId row hrow).imp_right fun hnew => ⟨hnew.1, fun edge hedge => ?_⟩
    by_cases howed : edge ∈ d.owed
    · exact .inl howed
    · have hin := (hnew.2 edge hedge).resolve_left howed
      have hspared := not_deletes_counted hcovers hallows hrespects
        (h.counted hopen hnew.1 hrow hedge howed)
      exact .inr ⟨hin.1, not_deleted_finished hspared hin.2⟩

theorem Covers.finished (h : Covers rt shown σ scan) (hopen : (σ.sessions none).status = .open)
    (hrunning : (σ.sessions none).running = some run)
    (hcall : (σ.sessions none).program = .call op k) (hrespects : Respects rt shown σ none run op) :
    Covers rt (shown ++ shownArtists σ (.finish none)) (σ.finished engine none run op k)
      (scan.next rt op (op.read run.snapshot)) := by
  have hkeeps := h.keeps
  rw [hcall] at hkeeps
  obtain ⟨hallows, hrest⟩ := hkeeps
  have hview : (σ.finished engine none run op k).view engine none =
      (op.change run.snapshot run.dead).apply (σ.view engine none) := view_finished
  refine ⟨?_, fun hended => ?_, fun dataId data hshown edge hedge => ?_,
    fun dataId row hrow edge hedge => ?_⟩
  · rw [System.finished, System.set_sessions_self]
    exact hrest _
  · rw [System.finished, System.set_sessions_self] at hended
    exact absurd (hopen.symm.trans hended) (by simp)
  · rcases List.mem_append.1 hshown with hold | hnew
    · exact Scan.holds_next hallows (h.held dataId data hold edge hedge)
    · rw [shownArtists, hrunning, hcall] at hnew
      exact Scan.holds_read hallows hnew hedge
  · rw [hview]
    rcases h.payloads dataId row hrow edge hedge with hin | hpending | ⟨hunread, hshown⟩
    · have hspared := not_deletes_counted h hallows hrespects ⟨hedge, .inl hrow⟩
      exact .inl (mem_apply_of_not_deletes hspared hin)
    · rcases Scan.pending_next hallows hpending with hlater | hinserted
      · exact .inr (.inl hlater)
      · exact .inl hinserted
    · obtain ⟨seen, hseen, hdata⟩ := hshown run hrunning
      rw [← hdata] at hedge
      rcases Scan.unread_next hallows hunread hseen hedge with hpending | hlater
      · exact .inr (.inl hpending)
      · refine .inr (.inr ⟨hlater, fun next hnext => ?_⟩)
        rw [System.finished, System.set_sessions_self] at hnext
        cases hnext

theorem SweepSound.afterSweep (h : SweepSound rt shown σ) (hopen : (σ.sessions none).status = .open)
    (hrunning : (σ.sessions none).running = some run)
    (hcall : (σ.sessions none).program = .call op k) (hrespects : Respects rt shown σ none run op)
    (hexclusive : (σ.finished engine none run op k).Exclusive) :
    SweepSound rt (shown ++ shownArtists σ (.finish none)) (σ.finished engine none run op k) := by
  obtain ⟨scan, hcovers⟩ := h.sweep (by rw [hopen]; simp)
  have hkeeps := hcovers.keeps
  rw [hcall] at hkeeps
  refine ⟨hexclusive, fun t dataId hheld => ?_, fun i hlive => ?_, fun _ => ?_⟩
  · rw [System.finished, System.set_sessions_self] at hheld
    rcases Finset.mem_union.1 hheld with hbefore | hwrites
    · exact h.spares t dataId hbefore
    · exact Scan.entity_not_written hkeeps.1 t dataId hwrites
  · rw [System.finished, System.set_sessions_of_ne _ (by simp)] at hlive
    obtain ⟨d, hwriting⟩ := h.writes i hlive
    exact ⟨d, hwriting.beside_sweep hlive hcovers hkeeps.1 hrespects⟩
  · exact ⟨_, hcovers.finished hopen hrunning hcall hrespects⟩

/-! ### A transaction ends -/

theorem committedBy_session {session other : Option ι} (hne : other ≠ session) : ∃ running,
    (σ.committedBy engine session).sessions other = { σ.sessions other with running := running } :=
  ⟨_, System.committedBy_sessions_of_ne hne⟩

/-- A commit that keeps the rows a session sees leaves it seeing them. -/
theorem mem_view_committedBy {session other : Option ι} (hne : other ≠ session)
    (hpresent : .edge .memberOf edge ∈ (σ.sessions session).held →
      edge ∈ (σ.sessions session).own.edges .memberOf)
    (hedge : edge ∈ (σ.view engine other).edges .memberOf) :
    edge ∈ ((σ.committedBy engine session).view engine other).edges .memberOf := by
  obtain ⟨running, hother⟩ := committedBy_session (σ := σ) hne
  rw [mem_view] at hedge ⊢
  rw [hother]
  split
  · next hheld => rwa [if_pos hheld] at hedge
  · next hheld =>
    rw [if_neg hheld] at hedge
    rw [System.committedBy, mem_view]
    split
    · next hmine => exact hpresent hmine
    · exact hedge

/-- Beside a commit a write keeps what it stored. -/
theorem Writing.committedBy (h : Writing rt σ i d) {session : Option ι} (hne : some i ≠ session)
    (hexclusive : σ.Exclusive)
    (hpresent : ∀ edge : EdgeRow .memberOf, .edge .memberOf edge ∈ (σ.sessions session).held →
      ¬Deleted σ edge → edge ∈ (σ.sessions session).own.edges .memberOf)
    (hdeleted : ∀ edge, Deleted (σ.committedBy engine session) edge → Deleted σ edge) :
    Writing rt (σ.committedBy engine session) i d := by
  obtain ⟨running, hsession⟩ := committedBy_session (σ := σ) hne
  refine ⟨?_, ?_, fun dataId row hrow => ?_⟩
  · rw [hsession]
    exact h.pays
  · rw [hsession]
    exact h.present
  · rw [lookup_view, hsession] at hrow
    split at hrow
    · next hheld =>
      have hseen : ((σ.view engine (some i)).entities .artists).lookup dataId = some row := by
        rw [lookup_view, if_pos hheld]
        exact hrow
      rcases h.payloads dataId row hseen with ⟨kept, hkept, hdata⟩ | ⟨hupserted, hrows⟩
      · refine .inl ⟨kept, ?_, hdata⟩
        rw [System.committedBy, lookup_view, if_neg (hexclusive.disjoint hne hheld)]
        exact hkept
      · refine .inr ⟨hupserted, fun edge hedge => (hrows edge hedge).imp_right fun hin => ?_⟩
        refine ⟨mem_view_committedBy hne (fun hmine => hpresent edge hmine hin.2) hin.1, ?_⟩
        exact fun hgone => hin.2 (hdeleted edge hgone)
    · exact .inl ⟨row, hrow, rfl⟩

/-- What a finished write stored is there for the sweep. -/
theorem Covers.committedBy (h : Covers rt shown σ scan) (hwriting : Writing rt σ i d)
    (hpaid : d.owed = []) : Covers rt shown (σ.committedBy engine (some i)) scan := by
  have hne : none ≠ some i := by simp
  obtain ⟨running, hsession⟩ := committedBy_session (σ := σ) hne
  refine ⟨?_, ?_, h.held, fun dataId row hrow edge hedge => ?_⟩
  · rw [hsession]
    exact h.keeps
  · rw [hsession]
    exact h.ended
  · rcases hwriting.payloads dataId row hrow with ⟨kept, hkept, hdata⟩ | ⟨_, hrows⟩
    · rw [← hdata] at hedge ⊢
      rcases h.payloads dataId kept hkept edge hedge with hin | hlater
      · exact .inl (mem_view_committedBy hne (hwriting.present edge) hin)
      · refine .inr (hlater.imp_right fun hunread => ⟨hunread.1, fun run hrun => ?_⟩)
        rw [System.committedBy_sessions_of_ne hne] at hrun
        obtain ⟨before, hbefore, rfl⟩ := Option.map_eq_some_iff.1 hrun
        exact hunread.2 before hbefore
    · rcases hrows edge hedge with howed | ⟨hin, hspared⟩
      · rw [hpaid] at howed
        cases howed
      · refine .inl (mem_view.2 ?_)
        rw [hsession]
        split
        · next hheld =>
          by_contra hgone
          exact hspared ⟨hheld, hgone⟩
        · exact hin

theorem SweepSound.committedBy {a : PUnit} (h : SweepSound rt shown σ) {session : Option ι}
    (hopen : (σ.sessions session).status = .open) (hdone : (σ.sessions session).program = .done a)
    (hexclusive : (σ.committedBy engine session).Exclusive) :
    SweepSound rt shown (σ.committedBy engine session) := by
  cases session with
  | none =>
    have hdeleted : ∀ edge, ¬Deleted (σ.committedBy engine none) edge := by
      intro edge hgone
      rw [Deleted, System.committedBy_sessions_self] at hgone
      exact Finset.notMem_empty _ hgone.1
    refine ⟨hexclusive, fun t dataId hheld => ?_, fun i hlive => ?_, fun _ => ?_⟩
    · rw [System.committedBy_sessions_self] at hheld
      exact Finset.notMem_empty _ hheld
    · obtain ⟨running, hsession⟩ := committedBy_session (σ := σ) (by simp : some i ≠ none)
      rw [hsession] at hlive
      obtain ⟨d, hwriting⟩ := h.writes i hlive
      refine ⟨d, hwriting.committedBy (by simp) h.exclusive (fun edge hheld hspared => ?_)
        fun edge hgone => absurd hgone (hdeleted edge)⟩
      by_contra hgone
      exact hspared ⟨hheld, hgone⟩
    · obtain ⟨scan, hcovers⟩ := h.sweep (by rw [hopen]; simp)
      have hover := hcovers.keeps
      rw [hdone] at hover
      obtain rfl : scan = .over := hover
      have hview : (σ.committedBy engine none).view engine none = σ.view engine none :=
        view_of_held_empty (by rw [System.committedBy_sessions_self]; rfl)
      refine ⟨.over, ?_, fun _ => rfl, hcovers.held, fun dataId row hrow edge hedge => ?_⟩
      · rw [System.committedBy_sessions_self]
        exact hcovers.keeps
      · -- the sweep wrote no document, and has nothing left to insert or to read
        rw [System.committedBy, lookup_view, if_neg (h.spares _ _)] at hrow
        rw [hview]
        refine .inl ((hcovers.payloads dataId row hrow edge hedge).resolve_right ?_)
        rintro (hpending | hunread)
        · cases hpending
        · exact hunread.1
  | some i =>
    obtain ⟨d, hwriting⟩ := h.writes i hopen
    have hpays := hwriting.pays
    rw [hdone] at hpays
    have hsweep := committedBy_session (σ := σ) (by simp : none ≠ some i)
    obtain ⟨running, hsweep⟩ := hsweep
    have hdeleted : ∀ edge, Deleted (σ.committedBy engine (some i)) edge → Deleted σ edge := by
      intro edge hgone
      rw [Deleted, hsweep] at hgone
      exact hgone
    refine ⟨hexclusive, ?_, fun j hlive => ?_, fun hlive => ?_⟩
    · rw [hsweep]
      exact h.spares
    · by_cases hji : j = i
      · subst hji
        rw [System.committedBy_sessions_self] at hlive
        cases hlive
      · have hne : some j ≠ some i := by simpa using hji
        obtain ⟨running, hsession⟩ := committedBy_session (σ := σ) hne
        rw [hsession] at hlive
        obtain ⟨d', hwriting'⟩ := h.writes j hlive
        exact ⟨d', hwriting'.committedBy hne h.exclusive
          (fun edge hheld _ => hwriting.present edge hheld) hdeleted⟩
    · rw [hsweep] at hlive
      obtain ⟨scan, hcovers⟩ := h.sweep hlive
      exact ⟨scan, hcovers.committedBy hwriting hpays⟩

theorem SweepSound.aborted (h : SweepSound rt shown σ) (session : Option ι)
    (hexclusive : (σ.aborted session).Exclusive) : SweepSound rt shown (σ.aborted session) := by
  have hothers : ∀ {other}, other ≠ session → (σ.aborted session).sessions other = σ.sessions other :=
    fun hne => System.set_sessions_of_ne _ hne
  have hself : (σ.aborted session).sessions session = σ.closed session .aborted :=
    System.set_sessions_self _
  have hdeleted : ∀ edge, Deleted (σ.aborted session) edge → Deleted σ edge := by
    intro edge hgone
    cases session with
    | none =>
      rw [Deleted, hself] at hgone
      exact absurd hgone.1 (Finset.notMem_empty _)
    | some i =>
      rw [Deleted, hothers (by simp)] at hgone
      exact hgone
  refine ⟨hexclusive, fun t dataId hheld => ?_, fun i hlive => ?_, fun hlive => ?_⟩
  · cases session with
    | none =>
      rw [hself] at hheld
      exact Finset.notMem_empty _ hheld
    | some i =>
      rw [hothers (by simp)] at hheld
      exact h.spares t dataId hheld
  · by_cases hmine : some i = session
    · rw [hmine, hself] at hlive
      cases hlive
    · rw [hothers hmine] at hlive
      obtain ⟨d, hwriting⟩ := h.writes i hlive
      exact ⟨d, hwriting.congr rfl (hothers hmine) hdeleted⟩
  · cases session with
    | none =>
      rw [hself] at hlive
      exact absurd rfl hlive
    | some i =>
      have hsweep := hothers (by simp : none ≠ some i)
      rw [hsweep] at hlive
      obtain ⟨scan, hcovers⟩ := h.sweep hlive
      refine ⟨scan, ?_, ?_, hcovers.held, ?_⟩
      · rw [hsweep]
        exact hcovers.keeps
      · rw [hsweep]
        exact hcovers.ended
      · rw [System.view, hsweep]
        exact hcovers.payloads

theorem SweepSound.step {action : Action (Option ι)} (h : SweepSound rt shown σ)
    (hcareful : Careful rt shown σ action) (hstep : σ.Step engine action σ') :
    SweepSound rt (shown ++ shownArtists σ action) σ' := by
  have hexclusive := h.exclusive.step hstep
  cases hstep with
  | @begin session ρ op k hopen hidle hcall =>
    show SweepSound rt (shown ++ []) _
    rw [List.append_nil]
    exact h.begun session hexclusive
  | @finish session ρ op k run hopen hrunning hcall hfree =>
    have hrespects := hcareful hrunning hcall
    cases session with
    | none => exact h.afterSweep hopen hrunning hcall hrespects hexclusive
    | some i =>
      show SweepSound rt (shown ++ []) _
      rw [List.append_nil]
      exact h.afterWrite hopen hcall hfree hrespects hexclusive
  | @commit session a hopen hidle hdone =>
    show SweepSound rt (shown ++ []) _
    rw [List.append_nil]
    exact h.committedBy hopen hdone hexclusive
  | @abort session hopen =>
    show SweepSound rt (shown ++ []) _
    rw [List.append_nil]
    exact h.aborted session hexclusive

/-- In every run of a sweep beside writes whose steps are careful, every `member_of` row a stored
    artist asserts is there from the commit of the sweep on. -/
theorem careful_sweep_keeps_asserted (hids : (committed.entities .artists).lookup "" = none)
    (hrun : (sweepBeside rt fuel committed writes).RunWith engine SweepSystem.shownArtists
      (SweepSystem.Careful rt) shown σ)
    (hswept : (σ.sessions none).status = .committed) :
    ∀ edge : EdgeRow .memberOf,
      AssertedIn rt .memberOf σ.committed edge → edge ∈ σ.committed.edges .memberOf := by
  have hsound : SweepSound rt shown σ := by
    clear hswept
    induction hrun with
    | start => exact sound_start hids
    | step _ hadmits hstep ih => exact ih.step hadmits hstep
  obtain ⟨scan, hcovers⟩ := hsound.sweep (by rw [hswept]; simp)
  obtain rfl := hcovers.ended hswept
  have hview : σ.view engine none = σ.committed :=
    view_of_held_empty (hsound.exclusive.ended (by rw [hswept]; simp))
  rintro edge ⟨dataId, row, hrow, hedge⟩
  rcases hcovers.payloads dataId row hrow edge hedge with hin | hpending | hunread
  · rw [hview] at hin
    exact hin
  · cases hpending
  · exact hunread.1.elim

end

/-! ## An artist between the pages and the delete -/

/-- A group with one member. -/
def groupDocument (dataId hash member : String) : Document :=
  [("id", .str dataId), ("sha256", .str hash),
    ("members", .arr [.obj [("id", .str member), ("name", .str "Member")]])]

/-- The store after two deliveries of a group, the second with another member. -/
def groupStore : Store :=
  runOperations concreteRuntime 1
    [(.persistRecord 1 .artists "1" (groupDocument "1" "a" "2"), true),
      (.persistRecord 1 .artists "1" (groupDocument "1" "b" "3"), true)]

/-- The sweep beside the delivery of another group. -/
def groupSweep : SweepSystem Unit :=
  sweepBeside concreteRuntime 2 groupStore fun _ => .persistRecord 2 "4" (groupDocument "4" "c" "5")

/-- The `member_of` rows of one stored group. -/
def membersOf (dataId : String) (data : Json) : List (EdgeRow .memberOf) :=
  (deriveStored concreteRuntime .artists dataId data).edges .memberOf

/-- The delete comes when the write has ended, and takes no row of a stored artist. -/
def sparesMembers (σ : SweepSystem Unit) (snapshot : Store) (asserted : List (EdgeRow .memberOf)) :
    Bool :=
  (σ.sessions (some ())).status ≠ .open ∧ (σ.committed.entities .artists).rows.all fun entry =>
    (membersOf entry.1 entry.2.data).all fun edge =>
      asserted.contains edge ∨ edge ∉ snapshot.edges .memberOf

/-- The delete spares the members, and the upsert meets the hash its snapshot showed. -/
def sparesAsserted (σ : SweepSystem Unit) : Action (Option Unit) → Bool
  | .finish session =>
    match (σ.sessions session).running, (σ.sessions session).program with
    | some run, .call (.deleteUnasserted .memberOf asserted) _ =>
      sparesMembers σ run.snapshot asserted
    | some run, .call (.upsertRecord t _ incoming) _ =>
      ((run.snapshot.entities t).lookup incoming.dataId).map (·.hash) =
        (((σ.view engine session).entities t).lookup incoming.dataId).map (·.hash)
    | _, _ => true
  | _ => true

theorem careful_of_sparesAsserted {σ : SweepSystem Unit} {action : Action (Option Unit)}
    (h : sparesAsserted σ action = true) (shown : List (String × Json)) :
    SweepSystem.Careful concreteRuntime shown σ action := by
  cases action with
  | finish session =>
    intro ρ op k run hrunning hcall
    cases op with
    | deleteUnasserted a asserted =>
      cases a with
      | memberOf =>
        simp only [sparesAsserted, hrunning, hcall, sparesMembers, decide_eq_true_eq,
          List.all_eq_true] at h
        intro edge hsnapshot hunasserted dataId row hcounts
        obtain ⟨hedge, hrow | ⟨i, hopen, _⟩⟩ := hcounts
        · have hspared := h.2 (dataId, row) ((Table.mem_rows _ _ _).2 hrow) edge hedge
          rcases hspared with hlisted | hunseen
          · exact absurd (List.contains_iff_mem.1 hlisted) hunasserted
          · exact absurd hsnapshot hunseen
        · exact absurd hopen h.1
      | sameAs => trivial
    | upsertRecord t now incoming =>
      simp only [sparesAsserted, hrunning, hcall, decide_eq_true_eq] at h
      intro hstores hmoved
      exact absurd (by rw [StoresHash, ← h]; exact hstores) hmoved
    | _ => trivial
  | _ => trivial

/-- The group is delivered before the sweep reads its page. -/
def groupTurns : List (Action (Option Unit)) :=
  [.begin none, .begin (some ()), .finish (some ()), .finish none, .begin (some ()),
    .finish (some ()), .begin (some ()), .finish (some ()), .commit (some ()),
    .begin none, .finish none, .begin none, .finish none, .begin none, .finish none,
    .begin none, .finish none, .commit none]

theorem careful_sweep_keeps_asserted_turns :
    ∃ shown σ, groupSweep.RunWith engine SweepSystem.shownArtists
        (SweepSystem.Careful concreteRuntime) shown σ ∧
      (∀ session, (σ.sessions session).status = .committed) ∧
      σ.committed.edges .memberOf ≠ groupStore.edges .memberOf ∧
      ∀ edge : EdgeRow .memberOf, AssertedIn concreteRuntime .memberOf σ.committed edge →
        edge ∈ σ.committed.edges .memberOf := by
  have hrun : (groupSweep.performAll engine sparesAsserted groupTurns).any (fun σ =>
      (σ.sessions none).status = .committed ∧ (σ.sessions (some ())).status = .committed ∧
      σ.committed.edges .memberOf ≠ groupStore.edges .memberOf) = true := by
    decide +kernel
  have hids : (groupStore.entities .artists).lookup "" = none :=
    Option.isNone_iff_eq_none.1 (by decide +kernel)
  obtain ⟨σ, hσ, hend⟩ := (Option.any_eq_true _ _).1 hrun
  rw [decide_eq_true_eq] at hend
  obtain ⟨shown, hadmitted⟩ :=
    (System.run_of_performAll careful_of_sparesAsserted hσ).shown SweepSystem.shownArtists
  refine ⟨shown, σ, hadmitted, fun session => ?_, hend.2.2,
    careful_sweep_keeps_asserted hids hadmitted hend.1⟩
  cases session with
  | none => exact hend.1
  | some i => exact hend.2.1

/-- The group is delivered between the page and the delete. -/
def groupSchedule : List (Action (Option Unit)) :=
  [.begin none, .finish none, .begin none, .finish none, .begin (some ()), .finish (some ()),
    .begin (some ()), .finish (some ()), .begin (some ()), .finish (some ()), .commit (some ()),
    .begin none, .finish none, .begin none, .finish none, .begin none, .finish none, .commit none]

/-- The sweep deletes the membership the group was just stored with. -/
theorem sweep_deletes_asserted :
    (groupStore.entities .artists).lookup "" = none ∧
    (∀ edge : EdgeRow .memberOf, AssertedIn concreteRuntime .memberOf groupStore edge →
      edge ∈ groupStore.edges .memberOf) ∧
    ∃ σ, groupSweep.Run engine (fun _ _ => True) σ ∧
      (∀ session, (σ.sessions session).status = .committed) ∧
      ∃ edge : EdgeRow .memberOf, AssertedIn concreteRuntime .memberOf σ.committed edge ∧
        edge ∉ σ.committed.edges .memberOf := by
  have hrows : (groupStore.entities .artists).rows.all (fun entry =>
      (membersOf entry.1 entry.2.data).all fun edge => edge ∈ groupStore.edges .memberOf) = true := by
    decide +kernel
  have hrun : (groupSweep.performAll engine (fun _ _ => true) groupSchedule).any (fun σ =>
      (σ.sessions none).status = .committed ∧ (σ.sessions (some ())).status = .committed ∧
      ((σ.committed.entities .artists).lookup "4").any fun row =>
        (membersOf "4" row.data).any fun edge => edge ∉ σ.committed.edges .memberOf) = true := by
    decide +kernel
  obtain ⟨σ, hσ, hend⟩ := (Option.any_eq_true _ _).1 hrun
  simp only [Bool.decide_and, Bool.and_eq_true, decide_eq_true_eq, Option.any_eq_true,
    List.any_eq_true] at hend
  obtain ⟨hswept, hwritten, row, hrow, edge, hedge, hmissing⟩ := hend
  refine ⟨Option.isNone_iff_eq_none.1 (by decide +kernel), ?_, σ,
    System.run_of_performAll (fun _ => trivial) hσ, fun session => ?_, edge,
    ⟨"4", row, hrow, hedge⟩, hmissing⟩
  · rintro edge ⟨dataId, row, hrow, hedge⟩
    have hall := List.all_eq_true.1 hrows (dataId, row) ((Table.mem_rows _ _ _).2 hrow)
    simpa using List.all_eq_true.1 hall edge hedge
  · cases session with
    | none => exact hswept
    | some i => exact hwritten

end Tableinator
