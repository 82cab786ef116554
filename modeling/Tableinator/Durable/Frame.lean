import Tableinator.Durable.Writes

/-! # What no transaction undoes

The facts about the durable relations that every write keeps: the cursor only
moves forward, latch rows and jobs stay, and a lease token appears in a row only
by the claim that drew it.  `Write.keeps` and `Completion.keeps` prove them one
write at a time, from tables in any state. -/

namespace Tableinator.Durable

open Relational

variable {now : Time} {grant : Option Token} {db db' db'' : RefreshDb}

/-! ## The cursor columns -/

-- An absent cursor row reads as the row `_lock_cursor` would create.
def RefreshDb.generation (db : RefreshDb) : Nat := (db.cursor.map Cursor.generation).getD 0

def RefreshDb.version (db : RefreshDb) : Option String := db.cursor.bind Cursor.version

def Newer (old new : Option String) : Prop := ∃ v, new = some v ∧ ∀ u, old = some u → u < v

theorem Newer.trans {a b c : Option String} (hab : Newer a b) (hbc : Newer b c) : Newer a c := by
  obtain ⟨v, rfl, hav⟩ := hab
  obtain ⟨w, rfl, hvw⟩ := hbc
  exact ⟨w, rfl, fun u hu => (hav u hu).trans (hvw v rfl)⟩

/-- The cursor stands still, or its generation and its version both rise. -/
def Advances (db db' : RefreshDb) : Prop :=
  (db'.generation = db.generation ∧ db'.version = db.version) ∨
    (db.generation < db'.generation ∧ Newer db.version db'.version)

theorem Advances.refl (db : RefreshDb) : Advances db db := .inl ⟨rfl, rfl⟩

theorem Advances.trans (h : Advances db db') (h' : Advances db' db'') : Advances db db'' := by
  rcases h with ⟨hgen, hver⟩ | ⟨hgen, hver⟩
  · rcases h' with ⟨hgen', hver'⟩ | ⟨hgen', hver'⟩
    · exact .inl ⟨hgen'.trans hgen, hver'.trans hver⟩
    · exact .inr ⟨hgen ▸ hgen', hver ▸ hver'⟩
  · rcases h' with ⟨hgen', hver'⟩ | ⟨hgen', hver'⟩
    · exact .inr ⟨hgen' ▸ hgen, hver' ▸ hver⟩
    · exact .inr ⟨hgen.trans hgen', hver.trans hver'⟩

theorem Advances.generation_le (h : Advances db db') : db.generation ≤ db'.generation := by
  rcases h with ⟨hgen, _⟩ | ⟨hgen, _⟩
  · exact hgen.ge
  · exact hgen.le

/-- A version the cursor has reached stays at or behind it. -/
theorem Advances.version_le (h : Advances db db') {v : String} (hv : ∃ u, db.version = some u ∧ v ≤ u) :
    ∃ u, db'.version = some u ∧ v ≤ u := by
  obtain ⟨u, hu, hle⟩ := hv
  rcases h with ⟨_, hver⟩ | ⟨_, w, hw, hnewer⟩
  · exact ⟨u, hver.trans hu, hle⟩
  · exact ⟨w, hw, hle.trans (hnewer u hu).le⟩

theorem Advances.version_lt (h : Advances db db') {v : String} (hv : ∃ u, db.version = some u ∧ v < u) :
    ∃ u, db'.version = some u ∧ v < u := by
  obtain ⟨u, hu, hlt⟩ := hv
  obtain ⟨w, hw, hle⟩ := h.version_le ⟨u, hu, le_rfl⟩
  exact ⟨w, hw, hlt.trans_le hle⟩

theorem isCurrent_iff {job : ClaimedJob} :
    db.isCurrent job = true ↔ db.generation = job.generation ∧ db.version = some job.version := by
  unfold RefreshDb.isCurrent RefreshDb.current RefreshDb.generation RefreshDb.version
  cases db.cursor with
  | none => simp
  | some c => simp

/-! ## Latch rows and jobs -/

/-- Latch rows stay, and keep their signals, stamp and generation. -/
def LatchKept (latch latch' : Table String LatchRow) : Prop :=
  ∀ v row, latch.lookup v = some row → ∃ row', latch'.lookup v = some row' ∧
    row.signals ⊆ row'.signals ∧ (row.refreshedAt.isSome → row'.refreshedAt = row.refreshedAt) ∧
    (row.generation.isSome → row'.generation = row.generation)

/-- Jobs stay, each with its generation. -/
def JobKept (job job' : Table String JobRow) : Prop :=
  ∀ v row, job.lookup v = some row →
    ∃ row', job'.lookup v = some row' ∧ row'.generation = row.generation

/-- A token other than the granted one was in its row before, with the same state and
    epoch, and its lease was not revived. -/
def LeaseKept (now : Time) (grant : Option Token) (job job' : Table String JobRow) : Prop :=
  ∀ v row' token, job'.lookup v = some row' → row'.leaseToken = some token → grant ≠ some token →
    ∃ row, job.lookup v = some row ∧ row.leaseToken = some token ∧ row'.state = row.state ∧
      row'.leaseEpoch = row.leaseEpoch ∧
      (row'.leaseExpiresAt.any (now < ·) = true → row.leaseExpiresAt.any (now < ·) = true)

theorem LatchKept.refl (latch : Table String LatchRow) : LatchKept latch latch :=
  fun _ row h => ⟨row, h, subset_rfl, fun _ => rfl, fun _ => rfl⟩

theorem JobKept.refl (job : Table String JobRow) : JobKept job job := fun _ row h => ⟨row, h, rfl⟩

theorem LeaseKept.refl (job : Table String JobRow) : LeaseKept now grant job job :=
  fun _ row _ h htoken _ => ⟨row, h, htoken, rfl, rfl, id⟩

theorem LatchKept.trans {a b c : Table String LatchRow} (hab : LatchKept a b)
    (hbc : LatchKept b c) : LatchKept a c := by
  intro v row hrow
  obtain ⟨row', hrow', hsignals, hstamp, hgeneration⟩ := hab v row hrow
  obtain ⟨row'', hrow'', hsignals', hstamp', hgeneration'⟩ := hbc v row' hrow'
  refine ⟨row'', hrow'', hsignals.trans hsignals', ?_, ?_⟩
  · intro hsome
    rw [hstamp' (by rw [hstamp hsome]; exact hsome), hstamp hsome]
  · intro hsome
    rw [hgeneration' (by rw [hgeneration hsome]; exact hsome), hgeneration hsome]

theorem JobKept.trans {a b c : Table String JobRow} (hab : JobKept a b) (hbc : JobKept b c) :
    JobKept a c := by
  intro v row hrow
  obtain ⟨row', hrow', hgeneration⟩ := hab v row hrow
  obtain ⟨row'', hrow'', hgeneration'⟩ := hbc v row' hrow'
  exact ⟨row'', hrow'', hgeneration'.trans hgeneration⟩

theorem LeaseKept.trans {a b c : Table String JobRow} (hab : LeaseKept now grant a b)
    (hbc : LeaseKept now grant b c) : LeaseKept now grant a c := by
  intro v row'' token hrow'' htoken hgrant
  obtain ⟨row', hrow', htoken', hstate', hepoch', hlive'⟩ := hbc v row'' token hrow'' htoken hgrant
  obtain ⟨row, hrow, htoken, hstate, hepoch, hlive⟩ := hab v row' token hrow' htoken' hgrant
  exact ⟨row, hrow, htoken, hstate'.trans hstate, hepoch'.trans hepoch, fun h => hlive (hlive' h)⟩

/-- A latch row written over the row at its version. -/
theorem LatchKept.insert {latch : Table String LatchRow} {version : String} {new : LatchRow}
    (h : ∀ row, latch.lookup version = some row → row.signals ⊆ new.signals ∧
      (row.refreshedAt.isSome → new.refreshedAt = row.refreshedAt) ∧
      (row.generation.isSome → new.generation = row.generation)) :
    LatchKept latch (latch.insert version new) := by
  intro v row hrow
  by_cases hv : v = version
  · subst hv
    exact ⟨new, Table.lookup_insert_self _ _ _, h row hrow⟩
  · rw [Table.lookup_insert_of_ne _ _ hv]
    exact LatchKept.refl latch v row hrow

theorem JobKept.insert {job : Table String JobRow} {version : String} {new : JobRow}
    (h : ∀ row, job.lookup version = some row → new.generation = row.generation) :
    JobKept job (job.insert version new) := by
  intro v row hrow
  by_cases hv : v = version
  · subst hv
    exact ⟨new, Table.lookup_insert_self _ _ _, h row hrow⟩
  · rw [Table.lookup_insert_of_ne _ _ hv]
    exact JobKept.refl job v row hrow

/-- A job row written without a token brings none in. -/
theorem LeaseKept.insert {job : Table String JobRow} {version : String} {new : JobRow}
    (h : new.leaseToken = none) : LeaseKept now grant job (job.insert version new) := by
  intro v row' token hrow' htoken hgrant
  by_cases hv : v = version
  · subst hv
    rw [Table.lookup_insert_self] at hrow'
    cases hrow'
    rw [h] at htoken
    cases htoken
  · rw [Table.lookup_insert_of_ne _ _ hv] at hrow'
    exact LeaseKept.refl job v row' token hrow' htoken hgrant

/-! ## The frame of a write -/

structure Keeps (now : Time) (grant : Option Token) (db db' : RefreshDb) : Prop where
  cursor : Advances db db'
  latch : LatchKept db.latch db'.latch
  job : JobKept db.job db'.job
  lease : LeaseKept now grant db.job db'.job

theorem Keeps.refl (db : RefreshDb) : Keeps now grant db db :=
  ⟨.refl db, .refl _, .refl _, .refl _⟩

theorem Keeps.trans (h : Keeps now grant db db') (h' : Keeps now grant db' db'') :
    Keeps now grant db db'' :=
  ⟨h.cursor.trans h'.cursor, h.latch.trans h'.latch, h.job.trans h'.job, h.lease.trans h'.lease⟩

theorem advanceCursor_advances (now : Time) {c : Cursor} {version : String} (hc : db.cursor = some c)
    (hnewer : c.version.all (· < version) = true) :
    Advances db (advanceCursor now (c.generation + 1) version db) := by
  have hgeneration : db.generation = c.generation := by simp [RefreshDb.generation, hc]
  have hversion : db.version = c.version := by simp [RefreshDb.version, hc]
  refine .inr ⟨?_, version, rfl, ?_⟩
  · rw [hgeneration]
    exact Nat.lt_succ_self _
  · intro u hu
    rw [hversion] at hu
    rw [hu, Option.all_some, decide_eq_true_iff] at hnewer
    exact hnewer

theorem advanceCursor_job {generation : Nat} {version v : String} :
    (advanceCursor now generation version db).job.lookup v = (db.job.lookup v).map fun row =>
      if row.generation < generation && row.state.live then row.supersede now else row := rfl

theorem advanceCursor_jobKept (now : Time) (generation : Nat) (version : String) (db : RefreshDb) :
    JobKept db.job (advanceCursor now generation version db).job := by
  intro v row hrow
  rw [advanceCursor_job, hrow]
  refine ⟨_, rfl, ?_⟩
  dsimp only
  split
  · rfl
  · rfl

theorem advanceCursor_leaseKept (now : Time) (grant : Option Token) (generation : Nat)
    (version : String) (db : RefreshDb) :
    LeaseKept now grant db.job (advanceCursor now generation version db).job := by
  intro v row' token hrow' htoken hgrant
  rw [advanceCursor_job] at hrow'
  obtain ⟨row, hrow, rfl⟩ := Option.map_eq_some_iff.1 hrow'
  split at htoken
  · cases htoken
  · next hkeep =>
    rw [if_neg hkeep]
    exact ⟨row, hrow, htoken, rfl, rfl, id⟩

theorem assignGeneration_lookup {generation : Nat} {version v : String} :
    (assignGeneration now generation version db).latch.lookup v =
      (db.latch.lookup v).map fun row =>
        if v = version ∧ row.generation = none then
          { row with generation := some generation, updatedAt := now }
        else row := rfl

theorem assignGeneration_latchKept (now : Time) (generation : Nat) (version : String)
    (db : RefreshDb) : LatchKept db.latch (assignGeneration now generation version db).latch := by
  intro v row hrow
  rw [assignGeneration_lookup, hrow]
  refine ⟨_, rfl, ?_⟩
  dsimp only
  split
  · next hassigned =>
    refine ⟨subset_rfl, fun _ => rfl, fun hsome => ?_⟩
    rw [hassigned.2] at hsome
    cases hsome
  · exact ⟨subset_rfl, fun _ => rfl, fun _ => rfl⟩

theorem signalledRow_kept (now : Time) (generation : Option Nat) (dataType : DataType)
    (row : LatchRow) :
    row.signals ⊆ (signalledRow now generation dataType (some row)).signals ∧
      (row.refreshedAt.isSome →
        (signalledRow now generation dataType (some row)).refreshedAt = row.refreshedAt) ∧
      (row.generation.isSome →
        (signalledRow now generation dataType (some row)).generation = row.generation) := by
  refine ⟨Finset.subset_insert _ _, fun _ => rfl, fun hsome => ?_⟩
  obtain ⟨g, hg⟩ := Option.isSome_iff_exists.1 hsome
  simp [signalledRow, hg]

/-- A renewal leaves the token with its claim and extends only a live lease. -/
theorem renew_leaseKept {job : ClaimedJob} {row : JobRow} {expires : Time}
    (hrow : db.job.lookup job.version = some row)
    (hlive : row.leaseExpiresAt.any (now < ·) = true) :
    LeaseKept now grant db.job (db.job.insert job.version
      { row with leaseExpiresAt := some expires, updatedAt := now }) := by
  intro v row' token hrow' htoken hgrant
  by_cases hv : v = job.version
  · subst hv
    rw [Table.lookup_insert_self] at hrow'
    cases hrow'
    exact ⟨row, hrow, htoken, rfl, rfl, fun _ => hlive⟩
  · rw [Table.lookup_insert_of_ne _ _ hv] at hrow'
    exact LeaseKept.refl _ v row' token hrow' htoken hgrant

theorem lease_leaseKept {version : String} {row : JobRow} (owner : String) {token : Token} :
    LeaseKept now (some token) db.job (db.job.insert version (row.lease now owner token)) := by
  intro v row' other hrow' hother hgrant
  by_cases hv : v = version
  · subst hv
    rw [Table.lookup_insert_self] at hrow'
    cases hrow'
    exact absurd hother hgrant
  · rw [Table.lookup_insert_of_ne _ _ hv] at hrow'
    exact LeaseKept.refl _ v row' other hrow' hother hgrant

theorem Write.keeps (h : Write now grant db db') : Keeps now grant db db' := by
  cases h with
  | openCursor hc =>
    refine ⟨.inl ⟨?_, ?_⟩, .refl _, .refl _, .refl _⟩
    · simp [RefreshDb.generation, hc]
    · simp [RefreshDb.version, hc]
  | advance hc _ hnewer =>
    exact ⟨advanceCursor_advances _ hc hnewer, .refl _, advanceCursor_jobKept _ _ _ _,
      advanceCursor_leaseKept _ _ _ _ _⟩
  | assign _ _ => exact ⟨.refl _, assignGeneration_latchKept _ _ _ _, .refl _, .refl _⟩
  | schedule _ _ habsent _ _ _ =>
    refine ⟨.refl _, .refl _, .insert ?_, .insert rfl⟩
    intro row hrow
    rw [habsent] at hrow
    cases hrow
  | signal dataType _ _ _ _ =>
    refine ⟨.refl _, .insert ?_, .refl _, .refl _⟩
    intro row hrow
    rw [hrow]
    exact signalledRow_kept _ _ _ _
  | veto version dataType =>
    refine ⟨.refl _, .insert ?_, .refl _, .refl _⟩
    intro row hrow
    rw [hrow]
    exact ⟨subset_rfl, fun _ => rfl, fun _ => rfl⟩
  | supersede hrow _ _ =>
    refine ⟨.refl _, .refl _, .insert ?_, .insert rfl⟩
    intro row hrow'
    rw [hrow] at hrow'
    cases hrow'
    rfl
  | retry _ _ hrow _ =>
    refine ⟨.refl _, .refl _, .insert ?_, .insert rfl⟩
    intro row hrow'
    rw [hrow] at hrow'
    cases hrow'
    rfl
  | lease owner hgrant _ hrow _ _ =>
    subst hgrant
    refine ⟨.refl _, .refl _, .insert ?_, lease_leaseKept owner⟩
    intro row hrow'
    rw [hrow] at hrow'
    cases hrow'
    rfl
  | renew hrow _ hlive =>
    refine ⟨.refl _, .refl _, .insert ?_, renew_leaseKept hrow hlive⟩
    intro row hrow'
    rw [hrow] at hrow'
    cases hrow'
    rfl

theorem Writes.keeps (h : Writes now grant db db') : Keeps now grant db db' := by
  induction h with
  | refl => exact .refl db
  | tail _ hwrite ih => exact ih.trans hwrite.keeps

theorem Completion.keeps {job : ClaimedJob} (h : Completion now job db db') :
    Keeps now grant db db' := by
  cases h with
  | mk _ hlatch _ hnone hrow _ _ _ =>
    refine ⟨.refl _, .insert ?_, .insert ?_, .insert rfl⟩
    · intro row hrow'
      rw [hlatch] at hrow'
      cases hrow'
      refine ⟨subset_rfl, fun hsome => ?_, fun _ => rfl⟩
      rw [hnone] at hsome
      cases hsome
    · intro row hrow'
      rw [hrow] at hrow'
      cases hrow'
      rfl

/-! ## What only a completion publishes -/

def RefreshDb.refreshed (db : RefreshDb) (version : String) : Option Time :=
  (db.latch.lookup version).bind LatchRow.refreshedAt

def RefreshDb.completed (db : RefreshDb) (version : String) : Bool :=
  (db.job.lookup version).any fun row => row.state == .completed

/-- No latch was stamped and no job completed. -/
def Unpublished (db db' : RefreshDb) : Prop :=
  (∀ v, db'.refreshed v = db.refreshed v) ∧ ∀ v, db'.completed v = db.completed v

theorem Unpublished.refl (db : RefreshDb) : Unpublished db db := ⟨fun _ => rfl, fun _ => rfl⟩

theorem Unpublished.trans (h : Unpublished db db') (h' : Unpublished db' db'') :
    Unpublished db db'' :=
  ⟨fun v => (h'.1 v).trans (h.1 v), fun v => (h'.2 v).trans (h.2 v)⟩

theorem refreshed_insert {version : String} {new : LatchRow}
    (h : new.refreshedAt = db.refreshed version) (v : String) :
    ({ db with latch := db.latch.insert version new } : RefreshDb).refreshed v = db.refreshed v := by
  unfold RefreshDb.refreshed
  rw [Table.lookup_insert]
  split
  · next hv => rw [hv]; exact h
  · rfl

theorem completed_insert {version : String} {new : JobRow}
    (h : (new.state == .completed) = db.completed version) (v : String) :
    ({ db with job := db.job.insert version new } : RefreshDb).completed v = db.completed v := by
  unfold RefreshDb.completed
  rw [Table.lookup_insert]
  split
  · next hv => rw [hv]; exact h
  · rfl

theorem completed_of_live {version : String} {row : JobRow}
    (hrow : db.job.lookup version = some row) (hlive : row.state.live = true) :
    db.completed version = false := by
  unfold RefreshDb.completed
  rw [hrow, Option.any_some]
  cases hstate : row.state <;> simp_all [JobState.live]

theorem advanceCursor_completed (now : Time) (generation : Nat) (version v : String)
    (db : RefreshDb) : (advanceCursor now generation version db).completed v = db.completed v := by
  unfold RefreshDb.completed
  rw [advanceCursor_job]
  cases db.job.lookup v with
  | none => rfl
  | some row =>
    rw [Option.map_some, Option.any_some, Option.any_some]
    split
    · next hsuperseded =>
      rw [Bool.and_eq_true] at hsuperseded
      cases hstate : row.state <;> simp_all [JobState.live, JobRow.supersede]
    · rfl

theorem assignGeneration_refreshed (now : Time) (generation : Nat) (version v : String)
    (db : RefreshDb) : (assignGeneration now generation version db).refreshed v = db.refreshed v := by
  unfold RefreshDb.refreshed
  rw [assignGeneration_lookup]
  cases db.latch.lookup v with
  | none => rfl
  | some row =>
    rw [Option.map_some, Option.bind_some, Option.bind_some]
    split
    · rfl
    · rfl

theorem signalledRow_refreshed (now : Time) (generation : Option Nat) (dataType : DataType)
    (prior : Option LatchRow) :
    (signalledRow now generation dataType prior).refreshedAt = prior.bind LatchRow.refreshedAt := by
  cases prior with
  | none => rfl
  | some row => rfl

theorem vetoedRow_refreshed (now : Time) (dataType : DataType) (prior : Option LatchRow) :
    (vetoedRow now dataType prior).refreshedAt = prior.bind LatchRow.refreshedAt := by
  cases prior with
  | none => rfl
  | some row => rfl

theorem Write.unpublished (h : Write now grant db db') : Unpublished db db' := by
  cases h with
  | openCursor _ => exact .refl db
  | advance _ _ _ => exact ⟨fun _ => rfl, fun v => advanceCursor_completed _ _ _ v db⟩
  | assign _ _ => exact ⟨fun v => assignGeneration_refreshed _ _ _ v db, fun _ => rfl⟩
  | schedule _ _ habsent _ _ _ =>
    refine ⟨fun _ => rfl, completed_insert ?_⟩
    simp [RefreshDb.completed, habsent, JobRow.fresh]
  | signal _ _ _ _ _ => exact ⟨refreshed_insert (signalledRow_refreshed _ _ _ _), fun _ => rfl⟩
  | veto _ _ => exact ⟨refreshed_insert (vetoedRow_refreshed _ _ _), fun _ => rfl⟩
  | supersede hrow hlive _ =>
    refine ⟨fun _ => rfl, completed_insert ?_⟩
    rw [completed_of_live hrow hlive]
    rfl
  | retry _ _ hrow hleased =>
    refine ⟨fun _ => rfl, completed_insert ?_⟩
    rw [completed_of_live hrow (by rw [hleased]; rfl)]
    rfl
  | lease _ _ _ hrow hlive _ =>
    refine ⟨fun _ => rfl, completed_insert ?_⟩
    rw [completed_of_live hrow hlive]
    rfl
  | renew hrow _ _ =>
    refine ⟨fun _ => rfl, completed_insert ?_⟩
    simp [RefreshDb.completed, hrow]

theorem Writes.unpublished (h : Writes now grant db db') : Unpublished db db' := by
  induction h with
  | refl => exact .refl db
  | tail _ hwrite ih => exact ih.trans hwrite.unpublished

end Tableinator.Durable
