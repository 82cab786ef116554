import Tableinator.Durable.InlinePass
import Tableinator.Durable.ModeSwitch

/-! # The newest extraction in inline mode

An inline pass is declined when some latch row is younger than that of its version.  Rows
are created by the first signal or veto of a version to arrive, in whatever order the
versions come: a late first signal of an old version stops the pass of a newer one for
good.  While rows are created in the order of their versions, the newest version is
refreshed once its four signals are acked. -/

namespace Tableinator.Durable

open Relational Effect Effect.Program

variable {now : Time} {db db' : RefreshDb} {v : String} {t : DataType} {d : Delivery}

/-! ## The latch rows -/

/-- The row of a newer version is not older than that of an older one, while it waits for its
    pass. -/
def InVersionOrder (db : RefreshDb) : Prop :=
  ∀ v w old new, db.latch.lookup v = some old → db.latch.lookup w = some new → v < w →
    new.refreshedAt = none → old.createdAt ≤ new.createdAt

/-- No newer version waits for its pass with a row older than one created now. -/
def Fits (now : Time) (version : String) (db : RefreshDb) : Prop :=
  ∀ w row, db.latch.lookup w = some row → version < w → row.refreshedAt = none →
    now ≤ row.createdAt

/-- No row was created later than now. -/
def Past (now : Time) (db : RefreshDb) : Prop :=
  ∀ v row, db.latch.lookup v = some row → row.createdAt ≤ now

/-- The greatest version recorded so far. -/
def Greatest (db : RefreshDb) (v : String) : Prop :=
  (db.latch.lookup v).isSome = true ∧ ∀ w, (db.latch.lookup w).isSome = true → w ≤ v

def HasSignal (db : RefreshDb) (v : String) (t : DataType) : Prop :=
  ∃ row, db.latch.lookup v = some row ∧ t ∈ row.signals

/-- All signals of the greatest version are recorded, and its pass is still to come. -/
structure Unfinished (db : RefreshDb) (v : String) : Prop where
  greatest : Greatest db v
  signalled : ∀ t, HasSignal db v t
  unstamped : db.refreshed v = none

/-- What one call makes of the latch: rows stay and gain, and one that appears is created
    now. -/
structure Evolves (now : Time) (opened : Option String) (db db' : RefreshDb) : Prop where
  kept : ∀ v row, db.latch.lookup v = some row → ∃ row', db'.latch.lookup v = some row' ∧
    row'.createdAt = row.createdAt ∧ row.signals ⊆ row'.signals ∧
    (row.refreshedAt.isSome = true → row'.refreshedAt.isSome = true)
  created : ∀ v row', db.latch.lookup v = none → db'.latch.lookup v = some row' →
    opened = some v ∧ row'.createdAt = now

namespace Evolves

variable {opened : Option String}

theorem refl (now : Time) (opened : Option String) (db : RefreshDb) : Evolves now opened db db where
  kept v row hrow := ⟨row, hrow, rfl, subset_rfl, id⟩
  created v row' hnone hrow := by
    rw [hnone] at hrow
    cases hrow

theorem insert {version : String} {new : LatchRow}
    (hkept : ∀ row, db.latch.lookup version = some row → new.createdAt = row.createdAt ∧
      row.signals ⊆ new.signals ∧ (row.refreshedAt.isSome = true → new.refreshedAt.isSome = true))
    (hcreated : db.latch.lookup version = none → new.createdAt = now) :
    Evolves now (some version) db { db with latch := db.latch.insert version new } where
  kept v row hrow := by
    by_cases hv : v = version
    · subst hv
      exact ⟨new, Table.lookup_insert_self _ _ _, hkept row hrow⟩
    · exact ⟨row, (Table.lookup_insert_of_ne _ _ hv).trans hrow, rfl, subset_rfl, id⟩
  created v row' hnone hrow := by
    by_cases hv : v = version
    · subst hv
      rw [Table.lookup_insert_self] at hrow
      cases hrow
      exact ⟨rfl, hcreated hnone⟩
    · rw [Table.lookup_insert_of_ne _ _ hv, hnone] at hrow
      cases hrow

theorem stamp (now : Time) (opened : Option String) (version : String) (db : RefreshDb) :
    Evolves now opened db (markExtractionRefreshed now version db) where
  kept v row hrow := by
    refine ⟨_, by rw [markExtractionRefreshed, Table.lookup_update, hrow, Option.map_some], ?_⟩
    split
    · exact ⟨rfl, subset_rfl, fun _ => rfl⟩
    · exact ⟨rfl, subset_rfl, id⟩
  created v row' hnone hrow := by
    rw [markExtractionRefreshed, Table.lookup_update, hnone] at hrow
    cases hrow

theorem signal (now : Time) (version : String) (dataType : DataType) (db : RefreshDb) :
    Evolves now (some version) db (recordExtractionSignal now version dataType db).2 := by
  refine insert ?_ ?_
  · intro row hrow
    rw [hrow]
    exact ⟨rfl, Finset.subset_insert _ _, id⟩
  · intro hnone
    rw [hnone]
    rfl

theorem veto (now : Time) (version : String) (dataType : DataType) (db : RefreshDb) :
    Evolves now (some version) db (recordPurgeVeto now version dataType db) := by
  refine insert ?_ ?_
  · intro row hrow
    rw [hrow]
    exact ⟨rfl, subset_rfl, id⟩
  · intro hnone
    rw [hnone]
    rfl

theorem signalled (h : Evolves now opened db db') (hsignalled : HasSignal db v t) :
    HasSignal db' v t := by
  obtain ⟨row, hrow, hmem⟩ := hsignalled
  obtain ⟨row', hrow', -, hsignals, -⟩ := h.kept v row hrow
  exact ⟨row', hrow', hsignals hmem⟩

theorem unstamped (h : Evolves now opened db db') (hnone : db'.refreshed v = none) :
    db.refreshed v = none := by
  cases hrow : db.latch.lookup v with
  | none => rw [RefreshDb.refreshed, hrow, Option.bind_none]
  | some row =>
    obtain ⟨row', hrow', -, -, hstamped⟩ := h.kept v row hrow
    rw [RefreshDb.refreshed, hrow', Option.bind_some] at hnone
    rw [RefreshDb.refreshed, hrow, Option.bind_some]
    cases hstamp : row.refreshedAt with
    | none => rfl
    | some at' =>
      have hsome := hstamped (by rw [hstamp]; rfl)
      rw [hnone] at hsome
      cases hsome

theorem greatest (h : Evolves now opened db db') (hgreatest : Greatest db' v)
    (hrow : (db.latch.lookup v).isSome = true) : Greatest db v := by
  refine ⟨hrow, fun w hw => hgreatest.2 w ?_⟩
  obtain ⟨row, hrow⟩ := Option.isSome_iff_exists.1 hw
  obtain ⟨row', hrow', -⟩ := h.kept w row hrow
  rw [hrow']
  rfl

theorem past (h : Evolves now opened db db') (hpast : Past now db) : Past now db' := by
  intro v row' hrow'
  cases hrow : db.latch.lookup v with
  | none => exact le_of_eq (h.created v row' hrow hrow').2
  | some row =>
    obtain ⟨kept, hkept, hsame, -⟩ := h.kept v row hrow
    rw [hrow', Option.some.injEq] at hkept
    subst hkept
    rw [hsame]
    exact hpast v row hrow

/-- Only a row that does not fit breaks the order. -/
theorem inVersionOrder (h : Evolves now opened db db') (hordered : InVersionOrder db)
    (hpast : Past now db) (hfits : ∀ v, opened = some v → db.latch.lookup v = none → Fits now v db) :
    InVersionOrder db' := by
  intro v w old' new' hold' hnew' hlt hnone
  cases hold : db.latch.lookup v with
  | none =>
    obtain ⟨hopened, hcreated⟩ := h.created v old' hold hold'
    rw [hcreated]
    cases hnew : db.latch.lookup w with
    | none =>
      obtain ⟨hopened', -⟩ := h.created w new' hnew hnew'
      rw [hopened, Option.some.injEq] at hopened'
      exact absurd hopened' (ne_of_lt hlt)
    | some new =>
      obtain ⟨row, hrow, hsame, -, hstamped⟩ := h.kept w new hnew
      rw [hnew', Option.some.injEq] at hrow
      subst hrow
      have hunstamped : new.refreshedAt = none := by
        rw [hnone] at hstamped
        simpa using hstamped
      rw [hsame]
      exact hfits v hopened hold w new hnew hlt hunstamped
  | some old =>
    obtain ⟨row, hrow, hsame, -, -⟩ := h.kept v old hold
    rw [hold', Option.some.injEq] at hrow
    subst hrow
    rw [hsame]
    cases hnew : db.latch.lookup w with
    | none =>
      rw [(h.created w new' hnew hnew').2]
      exact hpast v old hold
    | some new =>
      obtain ⟨row, hrow, hsame', -, hstamped⟩ := h.kept w new hnew
      rw [hnew', Option.some.injEq] at hrow
      subst hrow
      have hunstamped : new.refreshedAt = none := by
        rw [hnone] at hstamped
        simpa using hstamped
      rw [hsame']
      exact hordered v w old new hold hnew hlt hunstamped

end Evolves

/-! ## The reply to a recorded signal -/

theorem recordExtractionSignal_lookup (now : Time) (v : String) (t : DataType) (db : RefreshDb) :
    (recordExtractionSignal now v t db).2.latch.lookup v =
      some (signalledRow now none t (db.latch.lookup v)) :=
  Table.lookup_insert_self _ _ _

/-- A younger row is that of a newer version. -/
theorem superseded_cases (hordered : InVersionOrder db) (hpast : Past now db)
    (hsuperseded : (recordExtractionSignal now v t db).1.superseded = true) :
    (db.refreshed v).isSome = true ∨ ∃ w, v < w ∧ (db.latch.lookup w).isSome = true := by
  obtain ⟨⟨w, newer⟩, hmem, hyounger⟩ := List.any_eq_true.1 hsuperseded
  rw [Table.mem_rows] at hmem
  have hyounger : (signalledRow now none t (db.latch.lookup v)).createdAt < newer.createdAt := by
    simpa using hyounger
  cases hrow : db.latch.lookup v with
  | none =>
    -- A row created now is younger than every other.
    rw [hrow] at hyounger
    exact absurd hyounger (not_lt.2 (hpast w newer hmem))
  | some row =>
    rw [hrow] at hyounger
    cases hstamp : db.refreshed v with
    | some at' => exact .inl rfl
    | none =>
      refine .inr ⟨w, ?_, by rw [hmem]; rfl⟩
      rw [RefreshDb.refreshed, hrow, Option.bind_some] at hstamp
      by_contra hle
      rcases lt_or_eq_of_le (not_lt.1 hle) with hlt | hsame
      · have horder := hordered w v newer row hmem hrow hlt hstamp
        exact absurd hyounger (not_lt.2 horder)
      · rw [hsame, hrow, Option.some.injEq] at hmem
        rw [hmem] at hyounger
        exact lt_irrefl _ hyounger

/-- The signal that finds the greatest version complete is told to run the pass. -/
theorem shouldRefresh_of_unfinished (hordered : InVersionOrder db) (hpast : Past now db)
    (hunfinished : Unfinished (recordExtractionSignal now v t db).2 v) :
    (recordExtractionSignal now v t db).1.shouldRefresh dataTypes = true := by
  have hlookup := recordExtractionSignal_lookup now v t db
  have hevolves := Evolves.signal now v t db
  have hsignals : dataTypes ⊆ (recordExtractionSignal now v t db).1.signals := by
    intro t' _
    obtain ⟨row, hrow, hmem⟩ := hunfinished.signalled t'
    rw [hlookup, Option.some.injEq] at hrow
    subst hrow
    exact hmem
  have hrefreshed : (recordExtractionSignal now v t db).1.alreadyRefreshed = false := by
    have hunstamped := hunfinished.unstamped
    rw [RefreshDb.refreshed, hlookup, Option.bind_some] at hunstamped
    show (signalledRow now none t (db.latch.lookup v)).refreshedAt.isSome = false
    rw [hunstamped]
    rfl
  have hcurrent : (recordExtractionSignal now v t db).1.superseded = false := by
    rw [← Bool.not_eq_true]
    intro hsuperseded
    rcases superseded_cases hordered hpast hsuperseded with hstamped | ⟨w, hlt, hrow⟩
    · rw [hevolves.unstamped hunfinished.unstamped] at hstamped
      cases hstamped
    · obtain ⟨row, hrow⟩ := Option.isSome_iff_exists.1 hrow
      obtain ⟨row', hrow', -⟩ := hevolves.kept w row hrow
      exact absurd hlt (not_lt.2 (hunfinished.greatest.2 w (by rw [hrow']; rfl)))
  simp [ExtractionLatch.shouldRefresh, hsignals, hrefreshed, hcurrent]

/-! ## What a call does to the latch -/

/-- The version whose row the call creates, if it has none. -/
def ServiceCall.opens (answer : Answer) : {ρ : Type} → ServiceCall ρ → Option String
  | _, .inl (.recordPurgeVeto version) => if answer.takesEffect then some version else none
  | _, .inr (.recordExtractionSignal version) => if answer.takesEffect then some version else none
  | _, _ => none

/-- What an allowed call does, by what its handler learns, the row it may create and whether
    it is the ack. -/
inductive Acts (now : Time) (d : Delivery) (st : Passing) (db : RefreshDb) :
    Option ExtractionLatch → Bool → Option String → Bool → RefreshDb → Prop where
  | keeps (acked : Bool) :
    (acked = true → ∀ version, extractionLatchKey d = some version → st.Done) →
    Acts now d st db none false none acked db
  | vetoes {version : String} : extractionLatchKey d = some version →
    Acts now d st db none false (some version) false (recordPurgeVeto now version d.dataType db)
  | signals {version : String} {reported : Option ExtractionLatch} :
    extractionLatchKey d = some version →
    (∀ latch, reported = some latch → latch = (recordExtractionSignal now version d.dataType db).1) →
    Acts now d st db reported false (some version) false
      (recordExtractionSignal now version d.dataType db).2
  | stamps {version : String} (passed : Bool) : extractionLatchKey d = some version →
    st.recorded.isSome = true →
    Acts now d st db none passed none false (markExtractionRefreshed now version db)

theorem toOption_hear {ρ : Type} {answer : Answer} {value reply : ρ}
    (h : (answer.hear value).toOption = some reply) : reply = value := by
  unfold Answer.hear at h
  split at h
  · exact (Option.some.inj h).symm
  · cases h

theorem perform_acts {st : Passing} {answer : Answer} {ρ : Type} (op : ServiceCall ρ)
    (hallow : st.allows d op) :
    Acts now d st db (ServiceCall.reports op (ServiceCall.perform now d answer db op).1)
      (ServiceCall.passes op (ServiceCall.perform now d answer db op).1)
      (ServiceCall.opens answer op) (ServiceCall.acks answer op)
      (ServiceCall.perform now d answer db op).2 := by
  have hkeeps : ∀ acked : Bool, acked = false → Acts now d st db none false none acked db :=
    fun acked hacked => .keeps acked fun h => by rw [hacked] at h; cases h
  match ρ, op with
  | _, .inl op =>
    cases op with
    | recordPurgeVeto version =>
      simp only [ServiceCall.perform, Call.perform, ServiceCall.opens]
      split
      · exact .vetoes hallow
      · exact hkeeps _ rfl
    | purgeWasVetoed version =>
      simp only [ServiceCall.perform]
      split
      · exact hkeeps _ rfl
      · exact hkeeps _ rfl
    | recordDurableSignal version dataType => exact absurd hallow id
    | ack => exact .keeps _ fun _ => hallow
    | _ => exact hkeeps _ rfl
  | _, .inr (.recordExtractionSignal version) =>
    simp only [ServiceCall.perform, InlineCall.perform, ServiceCall.opens]
    split
    · exact .signals hallow fun latch hlatch => toOption_hear hlatch
    · exact hkeeps _ rfl
  | _, .inr (.refreshDerivedRelations version) =>
    simp only [ServiceCall.perform, InlineCall.perform]
    split
    · exact .stamps _ hallow.1 hallow.2
    · exact hkeeps _ rfl

theorem Acts.evolves {st : Passing} {reported : Option ExtractionLatch} {passed : Bool}
    {opened : Option String} {acked : Bool} (h : Acts now d st db reported passed opened acked db') :
    Evolves now opened db db' := by
  cases h with
  | keeps acked _ => exact .refl now _ db
  | vetoes _ => exact .veto now _ d.dataType db
  | signals _ _ => exact .signal now _ d.dataType db
  | stamps passed _ _ => exact .stamp now _ _ db

/-- An ack of a named extraction comes last. -/
theorem Acts.done {st : Passing} {reported : Option ExtractionLatch} {passed : Bool}
    {opened : Option String} (h : Acts now d st db reported passed opened true db')
    (hkey : extractionLatchKey d = some v) : st.Done := by
  cases h with
  | keeps acked hdone => exact hdone rfl v hkey

theorem Acts.recorded {st : Passing} {reported : Option ExtractionLatch} {opened : Option String}
    {acked : Bool} (h : Acts now d st db reported true opened acked db') :
    st.recorded.isSome = true := by
  cases h with
  | stamps passed _ hrecorded => exact hrecorded

/-- A handler that hears the latch has recorded its signal. -/
theorem Acts.hasSignal {st : Passing} {latch : ExtractionLatch} {passed : Bool}
    {opened : Option String} {acked : Bool}
    (h : Acts now d st db (some latch) passed opened acked db')
    (hkey : extractionLatchKey d = some v) : HasSignal db' v d.dataType := by
  cases h with
  | signals hversion _ =>
    rw [hkey, Option.some.injEq] at hversion
    subst hversion
    refine ⟨_, recordExtractionSignal_lookup now v d.dataType db, ?_⟩
    cases db.latch.lookup v with
    | none => exact Finset.mem_singleton_self _
    | some row => exact Finset.mem_insert_self _ _

/-- While the greatest version is unfinished, a handler that owes its pass goes on owing it. -/
theorem Acts.owes {st : Passing} {reported : Option ExtractionLatch} {passed : Bool}
    {opened : Option String} {acked : Bool} (h : Acts now d st db reported passed opened acked db')
    (howes : st.Owes) (hkey : extractionLatchKey d = some v) (hordered : InVersionOrder db)
    (hpast : Past now db) (hunfinished : Unfinished db' v) :
    acked = false ∧ passed = false ∧
      ∀ latch, reported = some latch → latch.shouldRefresh dataTypes = true := by
  cases h with
  | keeps acked hdone =>
    refine ⟨?_, rfl, fun latch hlatch => by cases hlatch⟩
    rw [← Bool.not_eq_true]
    intro hacked
    exact howes.not_done (hdone hacked v hkey)
  | vetoes _ => exact ⟨rfl, rfl, fun latch hlatch => by cases hlatch⟩
  | signals hversion hreported =>
    rw [hkey, Option.some.injEq] at hversion
    subst hversion
    refine ⟨rfl, rfl, fun latch hlatch => ?_⟩
    rw [hreported latch hlatch]
    exact shouldRefresh_of_unfinished hordered hpast hunfinished
  | stamps passed hversion _ =>
    -- The pass would have stamped the row.
    rw [hkey, Option.some.injEq] at hversion
    subst hversion
    have hunstamped := hunfinished.unstamped
    obtain ⟨row, hrow⟩ := Option.isSome_iff_exists.1 hunfinished.greatest.1
    rw [Deployment.markExtractionRefreshed_refreshed, if_pos rfl] at hunstamped
    rw [markExtractionRefreshed, Table.lookup_update] at hrow
    obtain ⟨old, hold, -⟩ := Option.map_eq_some_iff.1 hrow
    rw [hold] at hunstamped
    cases hunstamped

/-! ## Runs -/

/-- The version whose row the next call of a handler creates, if it has none. -/
def Handling.opens (h : Handling) (answer : Answer) : Option String :=
  match h.program with
  | .call op _ => ServiceCall.opens answer op
  | _ => none

namespace Deployment

variable {R : Type} {s s' : Deployment R}

/-- Inline handlers, in processes with their pool and their declared latch. -/
def InlineMode (_ : Deployment R) : ServiceEvent R → Prop
  | .protocol (.tick _) => True
  | .protocol _ => False
  | .deliver mode _ => mode = .inline
  | .answer _ answer =>
    answer.reply .connectionPool = .ok true ∧ answer.reply .latchDeclared = .ok true
  | .cancel _ => True
  | .restart => True

/-- No row is created behind that of a newer version that waits for its pass. -/
def OpensInOrder (s : Deployment R) : ServiceEvent R → Prop
  | .answer index answer => ∀ h v, s.handlings[index]? = some h →
      h.opens answer.toAnswer = some v → s.cluster.db.latch.lookup v = none →
      Fits s.cluster.now v s.cluster.db
  | _ => True

abbrev InOrder (s : Deployment R) (event : ServiceEvent R) : Prop :=
  InlineMode s event ∧ OpensInOrder s event

/-- A signal of this type of this version was acked. -/
def Acked (s : Deployment R) (v : String) (t : DataType) : Prop :=
  ∃ entry ∈ s.acks, extractionLatchKey entry.1 = some v ∧ entry.1.dataType = t

/-- A handling by what it learned: it passes only after it recorded its signal. -/
structure Stands (db : RefreshDb) (h : Handling) (st : Passing) : Prop where
  passes : Passes h.delivery h.program (fun _ _ => True) st
  passed : st.passed = true → st.recorded.isSome = true
  recorded : st.recorded.isSome = true → ∀ v, extractionLatchKey h.delivery = some v →
    HasSignal db v h.delivery.dataType

/-- The signal is not acked, and whoever handles it owes its pass. -/
structure Owed (s : Deployment R) (v : String) (t : DataType) : Prop where
  unacked : ¬Acked s v t
  handlings : ∀ h ∈ s.handlings, extractionLatchKey h.delivery = some v → h.delivery.dataType = t →
    ∃ st : Passing, Passes h.delivery h.program (fun _ _ => True) st ∧ st.Owes

/-- While the greatest version is unfinished, some signal of it is owed a pass. -/
structure Owing (s : Deployment R) : Prop where
  ordered : InVersionOrder s.cluster.db
  past : Past s.cluster.now s.cluster.db
  acks : ∀ v t, Acked s v t → HasSignal s.cluster.db v t
  handlings : ∀ h ∈ s.handlings, ∃ st, Stands s.cluster.db h st
  owed : ∀ v, Unfinished s.cluster.db v → ∃ t, Owed s v t

theorem perform_equipped (now : Time) {ρ : Type} (op : ServiceCall ρ) (d : Delivery)
    {answer : Answer} (db : RefreshDb) (hpool : answer.reply .connectionPool = .ok true)
    (hdeclared : answer.reply .latchDeclared = .ok true) :
    Equipped op (ServiceCall.perform now d answer db op).1 := by
  match ρ, op with
  | _, .inr _ => trivial
  | _, .inl op =>
    cases op with
    | connectionPool => exact hpool
    | latchDeclared => exact hdeclared
    | _ => trivial

theorem boot_owing (relations : R) : (boot .empty relations).Owing where
  ordered v w old new hold := by cases hold
  past v row hrow := by cases hrow
  acks := by
    rintro v t ⟨entry, hmem, -⟩
    cases hmem
  handlings h hmem := by cases hmem
  owed v hunfinished := by cases hunfinished.greatest.1

/-- A signal that is not recorded is not acked, and its handlers have recorded nothing. -/
theorem Owing.owed_of_unsignalled (h : s.Owing) (hnot : ¬HasSignal s.cluster.db v t) :
    Owed s v t where
  unacked hacked := hnot (h.acks v t hacked)
  handlings handling hmem hkey htype := by
    obtain ⟨st, hstands⟩ := h.handlings handling hmem
    have hnone : st.recorded = none := by
      rw [← Option.not_isSome_iff_eq_none]
      intro hrecorded
      have hsignal := hstands.recorded hrecorded v hkey
      rw [htype] at hsignal
      exact hnot hsignal
    refine ⟨st, hstands.passes, ?_, fun latch hlatch => by rw [hnone] at hlatch; cases hlatch⟩
    rw [← Bool.not_eq_true]
    intro hpassed
    have hrecorded := hstands.passed hpassed
    rw [hnone] at hrecorded
    cases hrecorded

/-- Of an unfinished version, a signal is owed in the state before the step. -/
theorem Owing.owed_before {opened : Option String} (h : s.Owing)
    (hevolves : Evolves now opened s.cluster.db db') (hunfinished : Unfinished db' v) :
    ∃ t, Owed s v t := by
  by_cases hall : ∀ t, HasSignal s.cluster.db v t
  · refine h.owed v ⟨hevolves.greatest hunfinished.greatest ?_, hall,
      hevolves.unstamped hunfinished.unstamped⟩
    obtain ⟨row, hrow, -⟩ := hall .artists
    rw [hrow]
    rfl
  · obtain ⟨t, hnot⟩ := not_forall.1 hall
    exact ⟨t, h.owed_of_unsignalled hnot⟩

theorem Owed.of_subset (h : Owed s v t) (hacks : s'.acks = s.acks)
    (hhandlings : ∀ handling ∈ s'.handlings, handling ∈ s.handlings) : Owed s' v t where
  unacked := by
    unfold Acked
    rw [hacks]
    exact h.unacked
  handlings handling hmem := h.handlings handling (hhandlings handling hmem)

theorem Owing.of_subset (h : s.Owing) (hdb : s'.cluster.db = s.cluster.db)
    (hnow : s.cluster.now ≤ s'.cluster.now) (hacks : s'.acks = s.acks)
    (hhandlings : ∀ handling ∈ s'.handlings, handling ∈ s.handlings) : s'.Owing where
  ordered := by
    rw [hdb]
    exact h.ordered
  past v row hrow := by
    rw [hdb] at hrow
    exact (h.past v row hrow).trans hnow
  acks := by
    unfold Acked
    rw [hdb, hacks]
    exact h.acks
  handlings handling hmem := by
    rw [hdb]
    exact h.handlings handling (hhandlings handling hmem)
  owed v hunfinished := by
    rw [hdb] at hunfinished
    obtain ⟨t, howed⟩ := h.owed v hunfinished
    exact ⟨t, howed.of_subset hacks hhandlings⟩

/-- Later tables keep what a handling learned. -/
theorem Stands.evolves {opened : Option String} {h : Handling} {st : Passing}
    (hstands : Stands db h st) (hevolves : Evolves now opened db db') : Stands db' h st where
  passes := hstands.passes
  passed := hstands.passed
  recorded hrecorded v hkey := hevolves.signalled (hstands.recorded hrecorded v hkey)

theorem Stands.next {ρ : Type} {op : ServiceCall ρ} {k : Except Failure ρ → Service Unit}
    {id : Nat} {vetoed vetoed' : Bool} {st : Passing} {answer : Answer}
    (hstands : Stands db ⟨id, d, vetoed, .call op k⟩ st)
    (hpool : answer.reply .connectionPool = .ok true)
    (hdeclared : answer.reply .latchDeclared = .ok true) :
    Stands (ServiceCall.perform now d answer db op).2
      ⟨id, d, vetoed', k (ServiceCall.perform now d answer db op).1⟩
      (st.next op (ServiceCall.perform now d answer db op).1) := by
  obtain ⟨⟨hallow, hrest⟩, hpassed, hrecorded⟩ := hstands
  have hacts := @perform_acts now db d st answer ρ op hallow
  refine ⟨hrest _ (perform_equipped now op d db hpool hdeclared), ?_, ?_⟩
  · intro h
    simp only [Passing.next, Option.isSome_or, Bool.or_eq_true] at h ⊢
    rcases h with hnow | hbefore
    · rw [hnow] at hacts
      exact .inr hacts.recorded
    · exact .inr (hpassed hbefore)
  · intro h v hkey
    simp only [Passing.next, Option.isSome_or, Bool.or_eq_true] at h
    rcases h with hnow | hbefore
    · obtain ⟨latch, hlatch⟩ := Option.isSome_iff_exists.1 hnow
      rw [hlatch] at hacts
      exact hacts.hasSignal hkey
    · exact hacts.evolves.signalled (hrecorded hbefore v hkey)

/-- What a handler that owes its pass does leaves the signal unacked. -/
theorem Owed.answer {index : Nat} {answer : ServiceAnswer R} {h : Handling} (howed : Owed s v t)
    (howing : s.Owing) (hok : InOrder s (.answer index answer))
    (hmem : s.handlings[index]? = some h) (hstep : s.answerStep index answer h = some s')
    (hunfinished : Unfinished s'.cluster.db v) : Owed s' v t := by
  obtain ⟨⟨hpool, hdeclared⟩, _⟩ := hok
  obtain ⟨id, d, vetoed, program⟩ := h
  have hacting := howed.handlings _ (List.mem_of_getElem? hmem)
  cases program with
  | done _ => cases hstep
  | raise _ => cases hstep
  | @call ρ op k =>
    simp only [answerStep, Option.some.injEq] at hstep
    subst hstep
    constructor
    · rintro ⟨entry, hentry, hkey, htype⟩
      dsimp only at hentry
      split at hentry
      · next hack =>
        rcases List.mem_cons.1 hentry with rfl | hold
        · obtain ⟨st, ⟨hallow, _⟩, howes⟩ := hacting hkey htype
          have hacts := @perform_acts s.cluster.now s.cluster.db d st answer.toAnswer ρ op hallow
          obtain ⟨hnot, -⟩ := hacts.owes howes hkey howing.ordered howing.past hunfinished
          rw [hnot] at hack
          cases hack
        · exact howed.unacked ⟨entry, hold, hkey, htype⟩
      · exact howed.unacked ⟨entry, hentry, hkey, htype⟩
    · intro handling hmem' hkey htype
      rcases List.mem_or_eq_of_mem_set hmem' with hold | rfl
      · exact howed.handlings handling hold hkey htype
      · obtain ⟨st, ⟨hallow, hrest⟩, howes⟩ := hacting hkey htype
        have hacts := @perform_acts s.cluster.now s.cluster.db d st answer.toAnswer ρ op hallow
        obtain ⟨-, hpassed, hreported⟩ :=
          hacts.owes howes hkey howing.ordered howing.past hunfinished
        refine ⟨_, hrest _ (perform_equipped _ op d _ hpool hdeclared), ?_, ?_⟩
        · simp only [Passing.next, hpassed, Bool.false_or]
          exact howes.1
        · intro latch hlatch
          rcases Option.or_eq_some_iff.1 hlatch with hnow | ⟨_, hbefore⟩
          · exact hreported latch hnow
          · exact howes.2 latch hbefore

theorem answerStep_owing {index : Nat} {answer : ServiceAnswer R} {h : Handling}
    (howing : s.Owing) (hok : InOrder s (.answer index answer))
    (hmem : s.handlings[index]? = some h) (hstep : s.answerStep index answer h = some s') :
    s'.Owing := by
  have howed := fun v t (howed : Owed s v t) => howed.answer howing hok hmem hstep
  obtain ⟨⟨hpool, hdeclared⟩, hfits⟩ := hok
  have hfits := fun v => hfits h v hmem
  obtain ⟨st, hstands⟩ := howing.handlings h (List.mem_of_getElem? hmem)
  obtain ⟨id, d, vetoed, program⟩ := h
  cases program with
  | done _ => cases hstep
  | raise _ => cases hstep
  | @call ρ op k =>
    simp only [answerStep, Option.some.injEq] at hstep
    subst hstep
    obtain ⟨hallow, _⟩ := hstands.passes
    have hacts := @perform_acts s.cluster.now s.cluster.db d st answer.toAnswer ρ op hallow
    have hevolves := hacts.evolves
    constructor
    · exact hevolves.inVersionOrder howing.ordered howing.past hfits
    · exact hevolves.past howing.past
    · rintro v t ⟨entry, hentry, hkey, rfl⟩
      dsimp only at hentry
      split at hentry
      · next hack =>
        rcases List.mem_cons.1 hentry with rfl | hold
        · -- The ack follows the recorded signal.
          rw [hack] at hacts
          obtain ⟨latch, hrecorded, -⟩ := hacts.done hkey
          exact hevolves.signalled (hstands.recorded (by rw [hrecorded]; rfl) v hkey)
        · exact hevolves.signalled (howing.acks v _ ⟨entry, hold, hkey, rfl⟩)
      · exact hevolves.signalled (howing.acks v _ ⟨entry, hentry, hkey, rfl⟩)
    · intro handling hmem'
      rcases List.mem_or_eq_of_mem_set hmem' with hold | rfl
      · obtain ⟨st', hstands'⟩ := howing.handlings handling hold
        exact ⟨st', hstands'.evolves hevolves⟩
      · exact ⟨_, hstands.next hpool hdeclared⟩
    · intro v hunfinished
      obtain ⟨t, hbefore⟩ := howing.owed_before hevolves hunfinished
      exact ⟨t, howed v t hbefore hunfinished⟩

theorem step_owing {event : ServiceEvent R} (h : s.Owing) (hok : InOrder s event)
    (hstep : s.step event = some s') : s'.Owing := by
  cases event with
  | protocol action =>
    cases action with
    | tick seconds =>
      cases hstep
      exact h.of_subset rfl (Nat.le_add_right _ _) rfl fun _ hmem => hmem
    | _ => exact absurd hok.1 id
  | deliver mode d =>
    obtain rfl : mode = .inline := hok.1
    cases hstep
    have hstart : Passes d (RefreshMode.inline.process d) (fun _ _ => True) .start :=
      processDataMessageInline_passes
    refine ⟨h.ordered, h.past, h.acks, ?_, ?_⟩
    · intro handling hmem
      rcases List.mem_cons.1 hmem with rfl | hold
      · exact ⟨.start, hstart, (fun hpassed => by cases hpassed),
          (fun hrecorded => by cases hrecorded)⟩
      · exact h.handlings handling hold
    · intro v hunfinished
      obtain ⟨t, howed⟩ := h.owed v hunfinished
      refine ⟨t, howed.unacked, ?_⟩
      intro handling hmem hkey htype
      rcases List.mem_cons.1 hmem with rfl | hold
      · exact ⟨.start, hstart, rfl, fun latch hlatch => by cases hlatch⟩
      · exact howed.handlings handling hold hkey htype
  | answer index answer =>
    obtain ⟨handling, hmem, hanswer⟩ := Option.bind_eq_some_iff.1 hstep
    exact answerStep_owing h hok hmem hanswer
  | cancel index =>
    cases hstep
    exact h.of_subset rfl le_rfl rfl fun _ hmem => List.mem_of_mem_eraseIdx hmem
  | restart =>
    cases hstep
    exact h.of_subset rfl le_rfl rfl fun _ hmem => by cases hmem

theorem run_owing (h : s.Owing) (hrun : Run InOrder s s') : s'.Owing := by
  induction hrun with
  | refl => exact h
  | tail _ hstep ih =>
    obtain ⟨event, hok, hevent⟩ := hstep
    exact step_owing ih hok hevent

/-- Once the four signals of the greatest version are acked, its row is stamped, and a signal
    is told that it is superseded only behind its own pass or a newer version. -/
theorem newest_extraction_is_refreshed {relations : R} (hrun : Run InOrder (boot .empty relations) s) :
    (∀ v, Greatest s.cluster.db v → (∀ t, Acked s v t) → (s.cluster.db.refreshed v).isSome = true) ∧
      ∀ v t, (recordExtractionSignal s.cluster.now v t s.cluster.db).1.superseded = true →
        (s.cluster.db.refreshed v).isSome = true ∨
          ∃ w, v < w ∧ (s.cluster.db.latch.lookup w).isSome = true := by
  have howing := run_owing (boot_owing relations) hrun
  constructor
  · intro v hgreatest hacked
    cases hstamp : s.cluster.db.refreshed v with
    | some at' => rfl
    | none =>
      have hsignalled := fun t => howing.acks v t (hacked t)
      obtain ⟨t, howed⟩ := howing.owed v ⟨hgreatest, hsignalled, hstamp⟩
      exact absurd (hacked t) howed.unacked
  · intro v t
    exact superseded_cases howing.ordered howing.past

/-! ## Runs on record -/

instance (now : Time) (version : String) (db : RefreshDb) : Decidable (Fits now version db) :=
  decidable_of_iff (∀ entry ∈ db.latch.rows, version < entry.1 → entry.2.refreshedAt = none →
    now ≤ entry.2.createdAt)
    ⟨fun h w row hrow => h (w, row) ((Table.mem_rows db.latch w row).2 hrow),
      fun h entry hmem => h entry.1 entry.2 ((Table.mem_rows db.latch entry.1 entry.2).1 hmem)⟩

instance (s : Deployment R) : (event : ServiceEvent R) → Decidable (InlineMode s event)
  | .protocol action => match action with
    | .tick _ => isTrue trivial
    | .signal _ _ | .reconcile | .veto _ _ | .claim _ _ _ | .renew _ _ | .start _ | .acquire _
    | .refresh _ _ | .finish _ | .commit _ | .fail _ _ | .settle _ | .crash _ => isFalse id
  | .deliver mode _ => decEq mode .inline
  | .answer _ answer => @instDecidableAnd _ _ (decEq (answer.reply .connectionPool) (.ok true))
      (decEq (answer.reply .latchDeclared) (.ok true))
  | .cancel _ => isTrue trivial
  | .restart => isTrue trivial

instance (s : Deployment R) : (event : ServiceEvent R) → Decidable (OpensInOrder s event)
  | .answer index answer =>
    decidable_of_iff (∀ v ∈ (s.handlings[index]?).bind fun h => h.opens answer.toAnswer,
      s.cluster.db.latch.lookup v = none → Fits s.cluster.now v s.cluster.db) <| by
        simp only [OpensInOrder, Option.mem_def, Option.bind_eq_some_iff]
        exact ⟨fun h h' v hmem hopens => h v ⟨h', hmem, hopens⟩,
          fun h v hv => hv.elim fun h' hopens => h h' v hopens.1 hopens.2⟩
  | .protocol _ => isTrue trivial
  | .deliver _ _ => isTrue trivial
  | .cancel _ => isTrue trivial
  | .restart => isTrue trivial

/-- The inline handling of a signal, with as many of its calls answered. -/
def inlineSignal (version : String) (dataType : DataType) (calls : Nat) :
    List (ServiceEvent Nat) :=
  .deliver .inline ⟨dataType, version, "2026-02-02", none⟩ ::
    List.replicate calls (.answer 0 ⟨Loader.smooth, 0⟩)

/-- The versions with a row, the acked signals, and whether the newest version is stamped. -/
def tally (s : Deployment Nat) : List String × List (Option String × DataType) × Bool :=
  (s.cluster.db.latch.keys,
    s.acks.map fun entry => (extractionLatchKey entry.1, entry.1.dataType),
    (s.cluster.db.refreshed "20260201").isSome)

theorem acked_of_tally {s : Deployment Nat} {acked : List (Option String × DataType)}
    (hacks : (tally s).2.1 = acked) (hmem : (some v, t) ∈ acked) : Acked s v t := by
  rw [← hacks] at hmem
  obtain ⟨entry, hentry, heq⟩ := List.mem_map.1 hmem
  obtain ⟨hkey, htype⟩ := Prod.mk.inj heq
  exact ⟨entry, hentry, hkey, htype⟩

theorem greatest_of_tally {s : Deployment Nat} {keys : List String}
    (hkeys : (tally s).1 = keys) (hmem : v ∈ keys) (hall : ∀ w ∈ keys, w ≤ v) :
    Greatest s.cluster.db v := by
  have hsome := s.cluster.db.latch.mem_keys
  have hkeys : s.cluster.db.latch.keys = keys := hkeys
  rw [hkeys] at hsome
  exact ⟨(hsome v).1 hmem, fun w hw => hall w ((hsome w).2 hw)⟩

/-- The four signals of the newest version, and a late one of an older version. -/
def lateStraggler : List (ServiceEvent Nat) :=
  inlineSignal "20260201" .artists 15 ++ (inlineSignal "20260201" .labels 15 ++
    (inlineSignal "20260201" .masters 15 ++ (inlineSignal "20260201" .releases 16 ++
      (.protocol (.tick 1) :: inlineSignal "20260101" .artists 15))))

theorem newest_extraction_is_refreshed_straggler :
    ∃ s : Deployment Nat, Run InOrder (boot .empty 0) s ∧ Greatest s.cluster.db "20260201" ∧
      (∀ t, Acked s "20260201" t) ∧ Acked s "20260101" .artists ∧
      (s.cluster.db.refreshed "20260201").isSome = true := by
  have heval : (runWhile InOrder (boot .empty 0) lateStraggler).map
      (fun s => ((tally s).1, (tally s).2.1)) =
      some (["20260101", "20260201"],
        [(some "20260101", .artists), (some "20260201", .releases), (some "20260201", .masters),
          (some "20260201", .labels), (some "20260201", .artists)]) := by
    decide +kernel
  obtain ⟨s, hs, htally⟩ := Option.map_eq_some_iff.1 heval
  obtain ⟨hkeys, hacks⟩ := Prod.mk.inj htally
  have hrun : Run InOrder (boot .empty 0) s := run_of_runWhile hs
  have hgreatest : Greatest s.cluster.db "20260201" :=
    greatest_of_tally hkeys (by decide) (by decide +kernel)
  have hacked : ∀ t, Acked s "20260201" t := fun t => acked_of_tally hacks (by cases t <;> decide)
  refine ⟨s, hrun, hgreatest, hacked, acked_of_tally hacks (by decide), ?_⟩
  exact (newest_extraction_is_refreshed hrun).1 _ hgreatest hacked

/-- The first signal of an older version arrives while the newest waits for its others. -/
def earlyStraggler : List (ServiceEvent Nat) :=
  inlineSignal "20260201" .artists 15 ++ (.protocol (.tick 1) ::
    (inlineSignal "20260101" .artists 15 ++ (inlineSignal "20260201" .labels 15 ++
      (inlineSignal "20260201" .masters 15 ++ inlineSignal "20260201" .releases 15))))

/-- Every call succeeds and all four signals of the newest version are acked, yet no pass has
    run for it: the older version has the younger row. -/
theorem older_version_suppresses_newest_pass :
    ∃ s : Deployment Nat, Run InlineMode (boot .empty 0) s ∧ Greatest s.cluster.db "20260201" ∧
      (∀ t, Acked s "20260201" t) ∧ (s.cluster.db.refreshed "20260201").isSome = false := by
  have heval : (runWhile InlineMode (boot .empty 0) earlyStraggler).map tally =
      some (["20260101", "20260201"],
        [(some "20260201", .releases), (some "20260201", .masters), (some "20260201", .labels),
          (some "20260101", .artists), (some "20260201", .artists)], false) := by
    decide +kernel
  obtain ⟨s, hs, htally⟩ := Option.map_eq_some_iff.1 heval
  obtain ⟨hkeys, htally⟩ := Prod.mk.inj htally
  obtain ⟨hacks, hstamp⟩ := Prod.mk.inj htally
  refine ⟨s, run_of_runWhile hs, ?_, ?_, hstamp⟩
  · exact greatest_of_tally hkeys (by decide) (by decide +kernel)
  · intro t
    exact acked_of_tally hacks (by cases t <;> decide)

end Deployment

end Tableinator.Durable
