import Tableinator.Store.NativeIdentity
import Tableinator.Store.Resubmission
import Tableinator.Store.StaleRows

/-! # Reloading a data type

An extraction delivers the documents of its dump in batches or one by one, in any order
and some of them more than once, while transactions fail and the other types load
beside it; the purge of the rows it did not touch ends it.  A load is followed by what
it delivered: the payload of each document is folded over its versions, and its entity
row is stamped by the last of them. -/

namespace Tableinator

open Effect Relational Tableinator.Graph

/-! ## What a load delivers -/

/-- When a transaction writes, in which table, and one record for each id. -/
def Operation.writes : Operation → Option (Time × DataType × List BatchRecord)
  | .processBatch now t messages => some (now, t, latest messages)
  | .persistRecord now t dataId data => some (now, t, [batchRecord dataId data])
  | .purgeStaleRows _ _ _ => none

/-- The records of the type among them. -/
def Operation.records (t : DataType) (op : Operation) : List BatchRecord :=
  match op.writes with
  | some (_, t', records) => if t' = t then records else []
  | none => []

/-- As far as the type goes, the transaction belongs to the extraction that began then. -/
def Operation.Loads (t : DataType) (startedAt : Time) : Operation → Prop
  | .processBatch now t' _ => t' = t → startedAt ≤ now
  | .persistRecord now t' _ _ => t' = t → startedAt ≤ now
  | .purgeStaleRows t' _ _ => t' ≠ t

section

variable (rt : Runtime) (cap : Rat) (t : DataType)

/-- The records of the type a step commits. -/
def Operation.delivers (st : Store) (op : Operation) (commits : Bool) : List BatchRecord :=
  if commits && (op.run rt cap st).isOk then op.records t else []

/-- `runOperations` from any store. -/
def resume (st : Store) (steps : List (Operation × Bool)) : Store :=
  steps.foldl (fun st step => step.1.settle rt cap st step.2) st

/-- What the steps commit of the type, oldest first. -/
def delivered : Store → List (Operation × Bool) → List BatchRecord
  | _, [] => []
  | st, (op, commits) :: steps =>
    op.delivers rt cap t st commits ++ delivered (op.settle rt cap st commits) steps

/-- The payload of a document once these versions of it arrived. -/
def payloadAfter (versions : List BatchRecord) (prior : Option Payload) : Option Payload :=
  versions.foldl (fun prior version => acceptedPayload rt t version prior) prior

end

/-- The records that bring a payload.  One with a null hash is unchanged where there is no row, and
    refused where there is one. -/
def hashed (records : List BatchRecord) : List BatchRecord :=
  records.filter fun record => record.sha256.str?.isSome

/-- What the records made of the rows of the type. -/
structure Loaded (rt : Runtime) (t : DataType) (startedAt : Time) (records : List BatchRecord)
    (st st' : Store) : Prop where
  payload : ∀ dataId, (st'.document t dataId).payload =
    payloadAfter rt t (versionsOf dataId records) (st.document t dataId).payload
  fresh : ∀ dataId ∈ records.map (·.dataId), ∃ time, st'.writtenAt t dataId = some time ∧ startedAt ≤ time
  spared : ∀ dataId ∉ records.map (·.dataId), st'.writtenAt t dataId = st.writtenAt t dataId

/-- The rows of the type are the last versions of these records, and the edges their own. -/
structure Mirrors (rt : Runtime) (t : DataType) (records : List BatchRecord) (st : Store) : Prop where
  stored : ∀ dataId, (st.entities t).lookup dataId ≠ none ↔ dataId ∈ records.map (·.dataId)
  payload : ∀ dataId, ∀ last ∈ (versionsOf dataId records).getLast?, ∃ row,
    (st.entities t).lookup dataId = some row ∧ last.sha256 = .str row.hash ∧ row.data = .obj last.data
  edges : ∀ dataId, ∀ last ∈ (versionsOf dataId records).getLast?,
    ∀ r ∈ (deriveDocument rt t dataId last.data).replaced, ∀ edge : EdgeRow r,
      edge ∈ st.edges r ∧ edge.Names dataId ↔ edge ∈ (deriveDocument rt t dataId last.data).edges r
  absent : ∀ dataId ∉ records.map (·.dataId), ∀ r ∈ purgeScope t, ∀ edge ∈ st.edges r, ¬edge.Names dataId

variable {rt : Runtime} {cap : Rat} {t t' : DataType} {dataId : String} {startedAt now : Time}
variable {st st' mid : Store} {op : Operation} {records first rest : List BatchRecord}

/-! ## One write -/

theorem persistRecord_stamped {data : Document} {outcome : Outcome}
    (h : (persistRecord rt now t dataId data).serial engine.alone st = .ok (outcome, st')) :
    Stamped now t [batchRecord dataId data] st st' := by
  obtain ⟨nativeId, hash, outcome', -, htext, hserial⟩ := @serial_persistRecord rt t st
    (batchRecord dataId data) now (accepts_of_persistRecord h) rfl
  have hstored : st'.hash t dataId = some hash := by
    obtain ⟨-, rfl⟩ := Prod.mk.inj (Except.ok.inj (h.symm.trans hserial))
    have hlookup := lookup_upsertRecord t now (recordParameters rt t hash dataId data nativeId) st st ∅
    show Option.map _ (((((Statement.upsertRecord t now (recordParameters rt t hash dataId data
      nativeId)).change st ∅).apply st).entities t).lookup dataId) = _
    rw [recordParameters_dataId] at hlookup
    rw [hlookup]
    cases (st.entities t).lookup dataId with
    | none => rfl
    | some row => by_cases hsame : row.hash = hash <;> simp [Incoming.revise, hsame]
  obtain ⟨-, rfl⟩ := Prod.mk.inj (Except.ok.inj (h.symm.trans hserial))
  have hstamp : ∀ t' other, Store.writtenAt (engine.alone (.upsertRecord t now
      (recordParameters rt t hash dataId data nativeId)) st).2 t' other =
        if t' = t ∧ other ∈ [dataId] then some now else st.writtenAt t' other := by
    intro t' other
    rw [Store.writtenAt, alone_store, Statement.change, lookup_entities_apply]
    by_cases hmine : t' = t ∧ other ∈ [dataId]
    · rw [if_pos (by exact hmine), if_pos hmine]
      cases (st.entities t').lookup other with
      | none => rfl
      | some row => rfl
    · rw [if_neg (by exact hmine), if_neg hmine]
      rfl
  constructor
  case others =>
    intro t' other ht
    exact (hstamp t' other).trans (if_neg fun hmine => ht hmine.1)
  case written =>
    intro other
    refine (hstamp t other).trans ?_
    by_cases hid : other ∈ [dataId]
    · rw [if_pos ⟨rfl, hid⟩, if_pos (by exact hid), List.mem_singleton.1 hid, hstored]
      rfl
    · rw [if_neg fun hmine => hid hmine.2, if_neg (by exact hid)]

/-- What a write that commits leaves. -/
theorem Operation.run_writes (hidentified : ∀ t, Identified rt t st) (hrun : op.run rt cap st = .ok st')
    (hwrites : op.writes = some (now, t, records)) :
    (∀ record ∈ records, Admits rt t (st.hash t record.dataId) record) ∧ Leaves rt t st records st' ∧
      Stamped now t records st st' ∧ (records.map (·.dataId)).Nodup := by
  cases op with
  | processBatch now' t' messages =>
    cases hwrites
    obtain ⟨result, hserial⟩ := serial_of_map hrun
    obtain ⟨hadmits, hleaves⟩ := leaves_of_run hrun
    exact ⟨hadmits, hleaves, processBatch_stamped hserial, latest_nodup messages⟩
  | persistRecord now' t' dataId data =>
    cases hwrites
    obtain ⟨outcome, hserial⟩ := serial_of_map hrun
    obtain ⟨outcome', left, hleft, hleaves⟩ := @persistRecord_leaves rt t st (batchRecord dataId data) now
      (accepts_of_persistRecord hserial) (hidentified t) rfl
    obtain ⟨-, rfl⟩ := Prod.mk.inj (Except.ok.inj (hserial.symm.trans hleft))
    refine ⟨fun record hrecord => ?_, hleaves, persistRecord_stamped hserial, List.nodup_singleton _⟩
    rw [List.mem_singleton.1 hrecord]
    exact (accepts_of_persistRecord hserial).admits _
  | purgeStaleRows t' startedAt recordCount => cases hwrites

/-- An accepted record brings its payload, or finds it stored. -/
theorem accepted_data {record : BatchRecord} {prior : Option Content} {row : Content}
    (h : accepted rt t record prior = some row) : row.data = .obj record.data ∨
      ∃ old, prior = some old ∧ row.data = old.data := by
  rw [accepted] at h
  split at h
  · obtain ⟨old, hold, rfl⟩ := Option.map_eq_some_iff.1 h
    exact .inr ⟨old, hold, rfl⟩
  · obtain ⟨hash, -, rfl⟩ := Option.map_eq_some_iff.1 h
    exact .inl rfl

theorem Operation.Loads.le (h : op.Loads t startedAt) (hwrites : op.writes = some (now, t, records)) :
    startedAt ≤ now := by
  cases op with
  | processBatch now' t' messages =>
    cases hwrites
    exact h rfl
  | persistRecord now' t' dataId data =>
    cases hwrites
    exact h rfl
  | purgeStaleRows t' startedAt recordCount => cases hwrites

theorem purge_of_writes_none (hwrites : op.writes = none) :
    ∃ t startedAt recordCount, op = .purgeStaleRows t startedAt recordCount := by
  cases op with
  | purgeStaleRows t startedAt recordCount => exact ⟨t, startedAt, recordCount, rfl⟩
  | _ => cases hwrites

/-- A purge that commits was skipped, or removed the stale rows. -/
theorem settle_purgeStaleRows (t : DataType) (startedAt : Option Time) (recordCount : Option Nat) :
    (PurgeSkips cap t startedAt recordCount st ∧
      (Operation.purgeStaleRows t startedAt recordCount).settle rt cap st true = st) ∨
    ∃ started, startedAt = some started ∧ PurgedExactly rt t started st
      ((Operation.purgeStaleRows t startedAt recordCount).settle rt cap st true) := by
  rcases serial_purgeStaleRows cap t startedAt recordCount st with
    ⟨hskips, hserial⟩ | ⟨started, hstarted, -, hserial⟩
  · refine .inl ⟨hskips, ?_⟩
    rw [Operation.settle, Operation.run, hserial]
    rfl
  · obtain ⟨left, hdeletes, hpurged⟩ := purged_of_deletes rt t started st
    refine .inr ⟨started, hstarted, ?_⟩
    rw [Operation.settle, Operation.run, hserial.trans hdeletes]
    exact hpurged

theorem Operation.run_purge {startedAt : Option Time} {recordCount : Option Nat}
    (hrun : (Operation.purgeStaleRows t startedAt recordCount).run rt cap st = .ok st') :
    st' = st ∨ ∃ started, PurgedExactly rt t started st st' := by
  have hsettle : (Operation.purgeStaleRows t startedAt recordCount).settle rt cap st true = st' := by
    rw [Operation.settle, hrun]
    rfl
  rcases @settle_purgeStaleRows rt cap st t startedAt recordCount with
    ⟨-, hsame⟩ | ⟨started, -, hpurged⟩
  · exact .inl (hsettle.symm.trans hsame)
  · rw [hsettle] at hpurged
    exact .inr ⟨started, hpurged⟩

/-- A purge that commits keeps the rows that are not stale, and writes none. -/
theorem lookup_of_purge {startedAt : Option Time} {recordCount : Option Nat}
    (hrun : (Operation.purgeStaleRows t startedAt recordCount).run rt cap st = .ok st') (t' : DataType)
    (dataId : String) : (st'.entities t').lookup dataId = (st.entities t').lookup dataId ∨
      t' = t ∧ (st'.entities t').lookup dataId = none := by
  rcases Operation.run_purge hrun with rfl | ⟨started, hpurged⟩
  · exact .inl rfl
  · rw [hpurged.entities]
    split
    · next ht =>
      cases hrow : (st.entities t').lookup dataId with
      | none => exact .inl rfl
      | some row =>
        cases hstale : row.stale started with
        | true => exact .inr ⟨ht, by simp [hstale]⟩
        | false => exact .inl (by simp [hstale])
    · exact .inl rfl

/-- Where the payload of a row comes from. -/
theorem Operation.run_data (hidentified : ∀ t, Identified rt t st)
    (hrun : op.run rt cap st = .ok st') {row : EntityRow}
    (hrow : (st'.entities t).lookup dataId = some row) :
    (∃ old, (st.entities t).lookup dataId = some old ∧ old.data = row.data) ∨
      ∃ record ∈ op.records t, record.dataId = dataId ∧ row.data = .obj record.data := by
  cases hwrites : op.writes with
  | some write =>
    obtain ⟨now, t', records⟩ := write
    obtain ⟨-, hleaves, -, -⟩ := op.run_writes hidentified hrun hwrites
    have hcontent : st'.content t dataId = some row.content := by
      rw [Store.content, hrow, Option.map_some]
    have hkept : st'.content t dataId = st.content t dataId →
        ∃ old, (st.entities t).lookup dataId = some old ∧ old.data = row.data := by
      intro hsame
      rw [hcontent, Store.content] at hsame
      obtain ⟨old, hold, hdata⟩ := Option.map_eq_some_iff.1 hsame.symm
      exact ⟨old, hold, congrArg Content.data hdata⟩
    simp only [Operation.records, hwrites]
    -- a write of another type leaves these rows alone
    by_cases ht : t' = t
    · subst ht
      rw [if_pos rfl]
      by_cases hid : dataId ∈ records.map (·.dataId)
      · obtain ⟨record, hrecord, rfl⟩ := List.mem_map.1 hid
        have hwritten := hleaves.written record hrecord
        rw [hcontent] at hwritten
        cases accepted_data hwritten.symm with
        | inl hnew => exact .inr ⟨record, hrecord, rfl, hnew⟩
        | inr hold =>
          obtain ⟨prior, hprior, hkeeps⟩ := hold
          obtain ⟨old, hlookup, rfl⟩ := Option.map_eq_some_iff.1 hprior
          exact .inl ⟨old, hlookup, hkeeps.symm⟩
      · exact .inl (hkept (hleaves.unwritten dataId hid))
    · exact .inl (hkept (hleaves.others t dataId (Ne.symm ht)))
  | none =>
    obtain ⟨t', started, recordCount, rfl⟩ := purge_of_writes_none hwrites
    rcases lookup_of_purge hrun t dataId with hkept | ⟨-, hgone⟩
    · rw [hkept] at hrow
      exact .inl ⟨row, hrow, rfl⟩
    · rw [hgone] at hrow
      cases hrow

/-- The native ids of the rows stay those their aliases resolve to. -/
theorem Operation.run_identified (hidentified : ∀ t, Identified rt t st)
    (hrun : op.run rt cap st = .ok st') (t : DataType) : Identified rt t st' := by
  cases hwrites : op.writes with
  | some write =>
    obtain ⟨now, t', records⟩ := write
    obtain ⟨-, hleaves, -, -⟩ := op.run_writes hidentified hrun hwrites
    by_cases ht : t = t'
    · subst ht
      exact hleaves.identified (hidentified t)
    · intro dataId row nativeId hrow
      rw [hleaves.others t dataId ht] at hrow
      exact hidentified t dataId row nativeId hrow
  | none =>
    obtain ⟨t', started, recordCount, rfl⟩ := purge_of_writes_none hwrites
    intro dataId row nativeId hrow
    rcases lookup_of_purge hrun t dataId with hkept | ⟨-, hgone⟩
    · rw [Store.content, hkept] at hrow
      exact hidentified t dataId row nativeId hrow
    · rw [Store.content, hgone] at hrow
      cases hrow

/-! ## A load -/

theorem Loaded.refl : Loaded rt t startedAt [] st st where
  payload _ := rfl
  fresh _ hmem := absurd hmem List.not_mem_nil
  spared _ _ := rfl

theorem versionsOf_append (dataId : String) (first rest : List BatchRecord) :
    versionsOf dataId (first ++ rest) = versionsOf dataId first ++ versionsOf dataId rest :=
  List.filter_append ..

theorem Loaded.trans (hfirst : Loaded rt t startedAt first st mid)
    (hrest : Loaded rt t startedAt rest mid st') : Loaded rt t startedAt (first ++ rest) st st' where
  payload dataId := by
    rw [hrest.payload, hfirst.payload, versionsOf_append, payloadAfter, payloadAfter, payloadAfter,
      List.foldl_append]
  fresh dataId hmem := by
    by_cases hlater : dataId ∈ rest.map (·.dataId)
    · exact hrest.fresh dataId hlater
    · rw [List.map_append, List.mem_append] at hmem
      rw [hrest.spared dataId hlater]
      exact hfirst.fresh dataId (hmem.resolve_right hlater)
  spared dataId hmem := by
    rw [List.map_append, List.mem_append, not_or] at hmem
    rw [hrest.spared dataId hmem.2, hfirst.spared dataId hmem.1]

/-- Of records of distinct ids, each document has one version or none. -/
theorem versionsOf_nodup (hids : (records.map (·.dataId)).Nodup) {record : BatchRecord}
    (hrecord : record ∈ records) : versionsOf record.dataId records = [record] := by
  induction records with
  | nil => exact absurd hrecord List.not_mem_nil
  | cons head records ih =>
    obtain ⟨hfresh, hids⟩ := List.nodup_cons.1 hids
    rcases List.mem_cons.1 hrecord with rfl | hrecord
    · have hnone : versionsOf record.dataId records = [] := by
        refine List.filter_eq_nil_iff.2 fun other hother hid => hfresh ?_
        exact List.mem_map.2 ⟨other, hother, by simpa using hid⟩
      rw [versionsOf, List.filter_cons, if_pos (by simp), ← versionsOf, hnone]
    · have hne : head.dataId ≠ record.dataId := fun hid =>
        hfresh (List.mem_map.2 ⟨record, hrecord, hid.symm⟩)
      rw [versionsOf, List.filter_cons, if_neg (by simpa using hne), ← versionsOf]
      exact ih hids hrecord

theorem versionsOf_eq_nil (hmem : dataId ∉ records.map (·.dataId)) : versionsOf dataId records = [] := by
  refine List.filter_eq_nil_iff.2 fun other hother hid => hmem ?_
  exact List.mem_map.2 ⟨other, hother, by simpa using hid⟩

theorem document_payload (st : Store) (t : DataType) (dataId : String) :
    (st.document t dataId).payload = (st.content t dataId).map Content.payload := rfl

theorem mem_hashed {record : BatchRecord} : record ∈ hashed records ↔
    record ∈ records ∧ ∃ hash, record.sha256 = .str hash := by
  rw [hashed, List.mem_filter]
  refine and_congr_right fun _ => ?_
  cases record.sha256 <;> simp [Json.str?]

theorem hashed_append (first rest : List BatchRecord) :
    hashed (first ++ rest) = hashed first ++ hashed rest := List.filter_append ..

/-- A record without a hash is let through only where there is no row. -/
theorem hash_of_admits {stored : Option String} {record : BatchRecord} (h : Admits rt t stored record)
    (hnone : ∀ hash, record.sha256 ≠ .str hash) : stored = none ∧ record.sha256 = .null := by
  have hsame : sameHash stored record.sha256 = true := by
    by_contra hchanged
    obtain ⟨hash, hrowHash⟩ := Option.isSome_iff_exists.1 (h.taken (Bool.eq_false_iff.2 hchanged))
    exact hnone hash (rowHash_eq_some.1 hrowHash).2
  cases stored with
  | none => exact ⟨rfl, sameHash_none.1 hsame⟩
  | some hash => exact absurd (sameHash_some.1 hsame) (hnone hash)

/-- One write of the type. -/
theorem loaded_of_leaves (hadmits : ∀ record ∈ records, Admits rt t (st.hash t record.dataId) record)
    (hleaves : Leaves rt t st records st') (hstamped : Stamped now t records st st')
    (hids : (records.map (·.dataId)).Nodup) (hnow : startedAt ≤ now) :
    Loaded rt t startedAt (hashed records) st st' := by
  have hhashed : ((hashed records).map (·.dataId)).Nodup := hids.sublist (List.filter_sublist.map _)
  -- a record without a hash leaves its document absent
  have habsent : ∀ {dataId}, dataId ∈ records.map (·.dataId) → dataId ∉ (hashed records).map (·.dataId) →
      st.content t dataId = none ∧ st'.content t dataId = none := by
    intro dataId hmem hnot
    obtain ⟨record, hrecord, rfl⟩ := List.mem_map.1 hmem
    obtain ⟨hnone, hnull⟩ := hash_of_admits (hadmits record hrecord) fun hash htext =>
      hnot (List.mem_map_of_mem (f := (·.dataId)) (mem_hashed.2 ⟨hrecord, hash, htext⟩))
    rw [← hash_content, Option.map_eq_none_iff] at hnone
    refine ⟨hnone, ?_⟩
    rw [hleaves.written record hrecord, accepted, hnone, hnull]
    rfl
  have hunwritten : ∀ {dataId}, dataId ∉ (hashed records).map (·.dataId) →
      st'.content t dataId = st.content t dataId := by
    intro dataId hnot
    by_cases hmem : dataId ∈ records.map (·.dataId)
    · obtain ⟨hbefore, hafter⟩ := habsent hmem hnot
      rw [hbefore, hafter]
    · exact hleaves.unwritten dataId hmem
  constructor
  case payload =>
    intro dataId
    by_cases hmem : dataId ∈ (hashed records).map (·.dataId)
    · obtain ⟨record, hrecord, rfl⟩ := List.mem_map.1 hmem
      rw [hleaves.document hids (mem_hashed.1 hrecord).1, versionsOf_nodup hhashed hrecord]
      rfl
    · rw [document_payload, document_payload, hunwritten hmem, versionsOf_eq_nil hmem]
      rfl
  case fresh =>
    intro dataId hmem
    obtain ⟨record, hrecord, rfl⟩ := List.mem_map.1 hmem
    obtain ⟨hrecord, hash, htext⟩ := mem_hashed.1 hrecord
    refine ⟨now, ?_, hnow⟩
    rw [hstamped.written, if_pos (List.mem_map_of_mem (f := (·.dataId)) hrecord), hleaves.hash hrecord,
      htext, hashAfter_str]
    rfl
  case spared =>
    intro dataId hnot
    by_cases hmem : dataId ∈ records.map (·.dataId)
    · obtain ⟨hbefore, hafter⟩ := habsent hmem hnot
      rw [Store.content, Option.map_eq_none_iff] at hbefore hafter
      rw [Store.writtenAt, Store.writtenAt, hbefore, hafter]
    · rw [hstamped.written, if_neg hmem]

/-- A transaction that leaves the rows of the type alone. -/
theorem loaded_of_others (hcontent : ∀ dataId, st'.content t dataId = st.content t dataId)
    (hwritten : ∀ dataId, st'.writtenAt t dataId = st.writtenAt t dataId) :
    Loaded rt t startedAt [] st st' where
  payload dataId := by
    rw [document_payload, document_payload, hcontent]
    rfl
  fresh _ hmem := absurd hmem List.not_mem_nil
  spared dataId _ := hwritten dataId

theorem Operation.run_loaded (hidentified : ∀ t, Identified rt t st) (hloads : op.Loads t startedAt)
    (hrun : op.run rt cap st = .ok st') : Loaded rt t startedAt (hashed (op.records t)) st st' := by
  cases hwrites : op.writes with
  | some write =>
    obtain ⟨now, t', records⟩ := write
    obtain ⟨hadmits, hleaves, hstamped, hids⟩ := op.run_writes hidentified hrun hwrites
    simp only [Operation.records, hwrites]
    by_cases ht : t' = t
    · subst ht
      rw [if_pos rfl]
      exact loaded_of_leaves hadmits hleaves hstamped hids (hloads.le hwrites)
    · rw [if_neg ht]
      exact loaded_of_others (fun dataId => hleaves.others t dataId (Ne.symm ht))
        fun dataId => hstamped.others t dataId (Ne.symm ht)
  | none =>
    obtain ⟨t', started, recordCount, rfl⟩ := purge_of_writes_none hwrites
    have hother : t' ≠ t := hloads
    have hkept : ∀ dataId, (st'.entities t).lookup dataId = (st.entities t).lookup dataId :=
      fun dataId => (lookup_of_purge hrun t dataId).resolve_right fun hgone => hother hgone.1.symm
    exact loaded_of_others (fun dataId => by rw [Store.content, hkept, Store.content])
      fun dataId => by rw [Store.writtenAt, hkept, Store.writtenAt]

theorem Operation.settle_loaded (hidentified : ∀ t, Identified rt t st) (hloads : op.Loads t startedAt)
    (commits : Bool) :
    Loaded rt t startedAt (hashed (op.delivers rt cap t st commits)) st
      (op.settle rt cap st commits) := by
  unfold Operation.delivers Operation.settle
  cases hrun : op.run rt cap st with
  | error e =>
    rw [if_neg (by simp [Except.isOk, Except.toBool])]
    exact Loaded.refl
  | ok st' =>
    cases commits with
    | true => exact op.run_loaded hidentified hloads hrun
    | false => exact Loaded.refl

/-- An accepted write that the database commits is delivered. -/
theorem Operation.delivers_of_accepts (hwrites : op.writes = some (now, t, records))
    (haccepts : ∀ record ∈ records, Accepts rt t record) : op.delivers rt cap t st true = records := by
  have hrun : (op.run rt cap st).isOk = true := by
    cases op with
    | processBatch now' t' messages =>
      cases hwrites
      obtain ⟨result, left, hserial, -⟩ := @processBatch_leaves rt t st messages now
        fun record hrecord => (haccepts record hrecord).admits _
      rw [Operation.run, settle_of_serial hserial]
      rfl
    | persistRecord now' t' dataId data =>
      cases hwrites
      obtain ⟨nativeId, hash, outcome, -, -, hserial⟩ := @serial_persistRecord rt t st (batchRecord dataId data) now
        (haccepts _ List.mem_cons_self) rfl
      exact congrArg Except.isOk (settle_of_serial hserial)
    | purgeStaleRows t' startedAt recordCount => cases hwrites
  rw [Operation.delivers, hrun, Bool.and_true, if_pos rfl, Operation.records, hwrites]
  exact if_pos rfl

theorem Operation.settle_identified (hidentified : ∀ t, Identified rt t st) (commits : Bool) (t : DataType) :
    Identified rt t (op.settle rt cap st commits) :=
  settle_inv (fun hrun => op.run_identified hidentified hrun t) (hidentified t)

/-- Any run of a load. -/
theorem resume_loaded {steps : List (Operation × Bool)} (hidentified : ∀ t, Identified rt t st)
    (hloads : ∀ step ∈ steps, step.1.Loads t startedAt) :
    Loaded rt t startedAt (hashed (delivered rt cap t st steps)) st (resume rt cap st steps) := by
  induction steps generalizing st with
  | nil => exact Loaded.refl
  | cons step steps ih =>
    obtain ⟨op, commits⟩ := step
    obtain ⟨hstep, hrest⟩ := List.forall_mem_cons.1 hloads
    rw [delivered, hashed_append]
    exact (op.settle_loaded hidentified hstep commits).trans
      (ih (op.settle_identified hidentified commits) hrest)

/-! ## The last version of a document -/

theorem acceptedPayload_agrees {version : BatchRecord} {prior : Option Payload} {hash : String}
    (htext : version.sha256 = .str hash)
    (h : ∀ stored, prior = some stored → stored.hash = hash → stored.data = .obj version.data) :
    ∃ payload, acceptedPayload rt t version prior = some payload ∧ payload.hash = hash ∧
      payload.data = .obj version.data := by
  cases hsame : sameHash (prior.map Payload.hash) version.sha256 with
  | true =>
    rw [payload_of_same hsame]
    rw [htext, sameHash_str] at hsame
    obtain ⟨stored, hstored, hhash⟩ := Option.map_eq_some_iff.1 hsame
    rw [hstored]
    exact ⟨_, rfl, hhash, h stored hstored hhash⟩
  | false => exact ⟨_, payload_of_changed htext hsame, rfl, rfl⟩

/-- Where one hash means one payload, the versions leave the last of them. -/
theorem payloadAfter_last {versions : List BatchRecord} {document : DocumentState} {last : BatchRecord}
    (htexts : ∀ version ∈ versions, ∃ hash, version.sha256 = .str hash)
    (hhonest : Honest versions document) (hlast : versions.getLast? = some last) :
    ∃ payload, payloadAfter rt t versions document.payload = some payload ∧
      last.sha256 = .str payload.hash ∧ payload.data = .obj last.data := by
  induction versions using List.reverseRecOn generalizing last with
  | nil => cases hlast
  | append_singleton versions version ih =>
    obtain rfl : version = last := by simpa using hlast
    have hversion : version ∈ versions ++ [version] := List.mem_append_right _ List.mem_cons_self
    have hfold : payloadAfter rt t (versions ++ [version]) document.payload =
        acceptedPayload rt t version (payloadAfter rt t versions document.payload) :=
      List.foldl_append
    obtain ⟨hash, htext⟩ := htexts version hversion
    obtain ⟨payload, hpayload, rfl, hdata⟩ := @acceptedPayload_agrees rt t version
      (payloadAfter rt t versions document.payload) hash htext fun stored hstored hhash => by
        cases hprevious : versions.getLast? with
        | none =>
          rw [List.getLast?_eq_none_iff.1 hprevious] at hstored
          exact hhonest.stored stored hstored version hversion (by rw [htext, hhash])
        | some previous =>
          obtain ⟨payload, hpayload, hsame, hdata⟩ := ih
            (fun other hother => htexts other (List.mem_append_left _ hother)) hhonest.earlier
            hprevious
          obtain rfl : payload = stored := Option.some.inj (hpayload.symm.trans hstored)
          have hmem := List.mem_append_left [version] (List.mem_of_getLast? hprevious)
          rw [hdata, hhonest.among previous hmem version hversion (by rw [hsame, hhash, htext])]
    exact ⟨payload, hfold.trans hpayload, htext, hdata⟩

/-! ## The purge at its end -/

/-- Below its cap, the purge keeps exactly the rows the extraction touched. -/
theorem lookup_settle_purge {recordCount : Option Nat} (hreported : recordCount ≠ some 0)
    (hcap : ¬cap ≤ ((st.staleIds t startedAt).length : Rat) / (st.entities t).rows.length) :
    (((Operation.purgeStaleRows t (some startedAt) recordCount).settle rt cap st true).entities t).lookup
        dataId = ((st.entities t).lookup dataId).filter fun row => !row.stale startedAt := by
  rcases @settle_purgeStaleRows rt cap st t (some startedAt) recordCount with
    ⟨hskip, hsame⟩ | ⟨started, hstarted, hpurged⟩
  · rw [hsame]
    -- a skipped purge found no stale row
    have hnone : st.staleIds t startedAt = [] := by
      rcases hskip with hzero | htotal | hstale | hover
      · exact absurd hzero hreported
      · rw [Store.staleIds, List.length_eq_zero_iff.1 htotal]
        rfl
      · exact List.length_eq_zero_iff.1 hstale
      · exact absurd hover hcap
    cases hrow : (st.entities t).lookup dataId with
    | none => rfl
    | some row =>
      cases hstale : row.stale startedAt with
      | true =>
        have hmem := Store.mem_staleIds.2 ⟨row, hrow, hstale⟩
        rw [hnone] at hmem
        exact absurd hmem List.not_mem_nil
      | false => exact (if_pos (show (!row.stale startedAt) = true by rw [hstale]; rfl)).symm
  · cases hstarted
    rw [hpurged.entities, if_pos rfl]

/-! ## Extractions -/

/-- An extraction of the type over what earlier runs left, up to its purge. -/
structure Extraction (rt : Runtime) (cap : Rat) (t : DataType) where
  before : List (Operation × Bool)
  steps : List (Operation × Bool)
  startedAt : Time
  recordCount : Option Nat
  loads : ∀ step ∈ steps, step.1.Loads t startedAt
  /-- The rows it finds were written before it began. -/
  predates : ∀ dataId row, ((runOperations rt cap before).entities t).lookup dataId = some row →
    row.stale startedAt = true
  reported : recordCount ≠ some 0
  belowCap : ¬cap ≤ (((resume rt cap (runOperations rt cap before) steps).staleIds t startedAt).length : Rat) /
    ((resume rt cap (runOperations rt cap before) steps).entities t).rows.length
  /-- One hash, one payload, for each document. -/
  honest : ∀ dataId, Honest
    (versionsOf dataId (hashed (delivered rt cap t (runOperations rt cap before) steps)))
    ((runOperations rt cap before).document t dataId)

namespace Extraction

variable {cap' : Rat} (x : Extraction rt cap t) (y : Extraction rt cap' t)

def start : Store := runOperations rt cap x.before

/-- The payloads that were committed of the type. -/
def deliveries : List BatchRecord := hashed (delivered rt cap t x.start x.steps)

/-- The tables once the purge is over. -/
def final : Store :=
  runOperations rt cap (x.before ++ x.steps ++ [(.purgeStaleRows t (some x.startedAt) x.recordCount, true)])

theorem final_eq : x.final = (Operation.purgeStaleRows t (some x.startedAt) x.recordCount).settle rt cap
    (resume rt cap x.start x.steps) true := by
  rw [final, runOperations, List.foldl_append, List.foldl_append]
  rfl

theorem start_identified (t' : DataType) : Identified rt t' x.start := by
  have hall : ∀ t, Identified rt t x.start := by
    refine runOperations_inv (I := fun st => ∀ t, Identified rt t st) ?_ ?_ x.before
    · intro t dataId row nativeId hrow
      cases hrow
    · exact fun hidentified hrun => Operation.run_identified hidentified hrun
  exact hall t'

theorem loaded : Loaded rt t x.startedAt x.deliveries x.start (resume rt cap x.start x.steps) :=
  resume_loaded x.start_identified x.loads

theorem lookup_final (dataId : String) : (x.final.entities t).lookup dataId =
    (((resume rt cap x.start x.steps).entities t).lookup dataId).filter fun row => !row.stale x.startedAt := by
  rw [final_eq]
  exact lookup_settle_purge x.reported x.belowCap

theorem lookup_of_delivered (hmem : dataId ∈ x.deliveries.map (·.dataId)) : ∃ row,
    (x.final.entities t).lookup dataId = some row ∧
      ((resume rt cap x.start x.steps).entities t).lookup dataId = some row := by
  obtain ⟨time, hwritten, htime⟩ := x.loaded.fresh dataId hmem
  obtain ⟨row, hrow, rfl⟩ := Option.map_eq_some_iff.1 hwritten
  have hfresh : row.stale x.startedAt = false := by
    simpa [EntityRow.stale] using htime
  exact ⟨row, by rw [lookup_final, hrow]; simp [hfresh], hrow⟩

theorem lookup_of_missed (hmem : dataId ∉ x.deliveries.map (·.dataId)) :
    (x.final.entities t).lookup dataId = none := by
  rw [lookup_final]
  cases hrow : ((resume rt cap x.start x.steps).entities t).lookup dataId with
  | none => rfl
  | some row =>
    -- nothing stamped it since the beginning, so it was stale then and is now
    have hspared := x.loaded.spared dataId hmem
    rw [Store.writtenAt, hrow, Option.map_some] at hspared
    obtain ⟨old, hold, hsame⟩ := Option.map_eq_some_iff.1 hspared.symm
    have hstale : row.stale x.startedAt = true := by
      have hpredates := x.predates dataId old hold
      simpa [EntityRow.stale, hsame] using hpredates
    simp [hstale]

end Extraction

/-! ## The tables mirror the dump -/

theorem mem_of_getLast_versionsOf {last : BatchRecord} (hlast : (versionsOf dataId records).getLast? = some last) :
    last ∈ records ∧ last.dataId = dataId := by
  have hmem := List.mem_filter.1 (List.mem_of_getLast? hlast)
  exact ⟨hmem.1, by simpa using hmem.2⟩

theorem getLast_versionsOf (hmem : dataId ∈ records.map (·.dataId)) :
    ∃ last, (versionsOf dataId records).getLast? = some last := by
  obtain ⟨record, hrecord, rfl⟩ := List.mem_map.1 hmem
  cases hlast : (versionsOf record.dataId records).getLast? with
  | some last => exact ⟨last, rfl⟩
  | none =>
    have hnone := List.getLast?_eq_none_iff.1 hlast
    exact absurd (List.mem_filter.2 ⟨hrecord, by simp⟩) (hnone ▸ List.not_mem_nil)

/-- The row of a document is the last version that was delivered. -/
theorem Extraction.row_of_last (x : Extraction rt cap t) {last : BatchRecord}
    (hlast : (versionsOf dataId x.deliveries).getLast? = some last) : ∃ row,
    (x.final.entities t).lookup dataId = some row ∧ last.sha256 = .str row.hash ∧
      row.data = .obj last.data := by
  obtain ⟨hmem, rfl⟩ := mem_of_getLast_versionsOf hlast
  obtain ⟨row, hfinal, hloaded⟩ := x.lookup_of_delivered (List.mem_map_of_mem (f := (·.dataId)) hmem)
  obtain ⟨payload, hafter, hhash, hdata⟩ :=
    @payloadAfter_last rt t _ _ last (fun version hversion =>
      (mem_hashed.1 (List.mem_of_mem_filter hversion)).2) (x.honest last.dataId) hlast
  -- the row the load left is the row the purge kept
  have hsame := (x.loaded.payload last.dataId).trans hafter
  rw [document_payload, Store.content, hloaded, Option.map_some, Option.map_some,
    Option.some.injEq] at hsame
  subst hsame
  exact ⟨row, hfinal, hhash, hdata⟩

theorem Extraction.coherent (x : Extraction rt cap t) (dataId : String) : Coherent rt t dataId x.final :=
  runOperations_inv coherent_empty Operation.run_coherent _

/-- And its edges are the ones that version derives. -/
theorem Extraction.edges_of_last (x : Extraction rt cap t) {last : BatchRecord}
    (hlast : (versionsOf dataId x.deliveries).getLast? = some last) {r : EdgeRelation}
    (hr : r ∈ (deriveDocument rt t dataId last.data).replaced) (edge : EdgeRow r) :
    edge ∈ x.final.edges r ∧ edge.Names dataId ↔
      edge ∈ (deriveDocument rt t dataId last.data).edges r := by
  obtain ⟨row, hrow, -, hdata⟩ := x.row_of_last hlast
  have hrows := (x.coherent dataId).rows hrow (r := r)
  rw [hdata] at hrows
  exact hrows hr edge

/-- Whatever earlier runs left, and however the documents arrived beside the other types: after the
    purge the rows of the type are the last delivered version of each document, the edges of each
    document are the ones that version derives, in every relation it replaces, and no edge names a
    document that was not delivered. -/
theorem reload_mirrors_dump (x : Extraction rt cap t) : Mirrors rt t x.deliveries x.final := by
  constructor
  case stored =>
    intro dataId
    constructor
    · intro hstored
      by_contra hmem
      exact hstored (x.lookup_of_missed hmem)
    · intro hmem hnone
      obtain ⟨row, hrow, -⟩ := x.lookup_of_delivered hmem
      rw [hnone] at hrow
      cases hrow
  case payload => exact fun dataId last hlast => x.row_of_last hlast
  case edges => exact fun dataId last hlast r hr edge => x.edges_of_last hlast hr edge
  case absent =>
    intro dataId hmem r hr edge hedge hnames
    exact (x.coherent dataId).absent (x.lookup_of_missed hmem) r hr edge hnames hedge

/-- The content of a version: its hash and its document. -/
def BatchRecord.content (record : BatchRecord) : Json × Document := (record.sha256, record.data)

/-- Two extractions that end with the same version of each document leave the same documents and, in
    the relations that version replaces, the same edges of each, whatever the order, the batches,
    the repetitions, the failures and the earlier runs. -/
theorem reloads_agree {cap' : Rat} (x : Extraction rt cap t) (y : Extraction rt cap' t)
    (hsame : ∀ dataId, (versionsOf dataId x.deliveries).getLast?.map BatchRecord.content =
      (versionsOf dataId y.deliveries).getLast?.map BatchRecord.content) (dataId : String) :
    ((x.final.entities t).lookup dataId).map (fun row => (row.hash, row.data)) =
        ((y.final.entities t).lookup dataId).map (fun row => (row.hash, row.data)) ∧
      ∀ row, (x.final.entities t).lookup dataId = some row →
        ∀ r ∈ (deriveStored rt t dataId row.data).replaced, ∀ edge : EdgeRow r, edge.Names dataId →
          (edge ∈ x.final.edges r ↔ edge ∈ y.final.edges r) := by
  have hids := hsame dataId
  cases hlast : (versionsOf dataId x.deliveries).getLast? with
  | none =>
    rw [hlast, Option.map_none] at hids
    have hlast' := Option.map_eq_none_iff.1 hids.symm
    have hmissed : ∀ {records : List BatchRecord}, (versionsOf dataId records).getLast? = none →
        dataId ∉ records.map (·.dataId) := by
      intro records hnone hmem
      obtain ⟨last, hsome⟩ := getLast_versionsOf hmem
      rw [hnone] at hsome
      cases hsome
    have hnone := x.lookup_of_missed (hmissed hlast)
    have hnone' := y.lookup_of_missed (hmissed hlast')
    rw [hnone, hnone']
    exact ⟨rfl, fun row hrow => (by cases hrow)⟩
  | some last =>
    rw [hlast, Option.map_some] at hids
    obtain ⟨last', hlast', hsays⟩ := Option.map_eq_some_iff.1 hids.symm
    obtain ⟨hhash, hdata⟩ := Prod.mk.inj hsays
    obtain ⟨row, hrow, hrowHash, hrowData⟩ := x.row_of_last hlast
    obtain ⟨row', hrow', hrowHash', hrowData'⟩ := y.row_of_last hlast'
    refine ⟨?_, fun other hother r hr edge hnames => ?_⟩
    · have hhashes : row.hash = row'.hash := by
        rw [hrowHash, hrowHash'] at hhash
        exact Json.str.inj hhash.symm
      rw [hrow, hrow', Option.map_some, Option.map_some, hhashes, hrowData, hrowData', hdata]
    · obtain rfl : row = other := Option.some.inj (hrow.symm.trans hother)
      rw [hrowData] at hr
      have hedges := x.edges_of_last hlast hr edge
      have hedges' := y.edges_of_last hlast' (hdata ▸ hr) edge
      rw [hdata] at hedges'
      constructor
      · intro hedge
        exact (hedges'.2 (hedges.1 ⟨hedge, hnames⟩)).1
      · intro hedge
        exact (hedges.2 (hedges'.1 ⟨hedge, hnames⟩)).1

/-- What commits was not refused. -/
theorem Operation.records_admitted {record : BatchRecord} (hrun : op.run rt cap st = .ok st')
    (hrecord : record ∈ op.records t) : ∃ stored, Admits rt t stored record := by
  cases op with
  | processBatch now t' messages =>
    simp only [Operation.records, Operation.writes] at hrecord
    split at hrecord
    · next ht =>
      subst ht
      obtain ⟨result, hserial⟩ := serial_of_map hrun
      exact ⟨_, admits_of_processBatch hserial record hrecord⟩
    · exact absurd hrecord List.not_mem_nil
  | persistRecord now t' dataId data =>
    simp only [Operation.records, Operation.writes] at hrecord
    split at hrecord
    · next ht =>
      subst ht
      obtain ⟨outcome, hserial⟩ := serial_of_map hrun
      rw [List.mem_singleton.1 hrecord]
      exact ⟨none, (accepts_of_persistRecord hserial).admits none⟩
    · exact absurd hrecord List.not_mem_nil
  | purgeStaleRows t' startedAt recordCount => exact absurd hrecord List.not_mem_nil

/-! ## Two extractions of one dump -/

theorem mem_delivered {steps : List (Operation × Bool)} {record : BatchRecord}
    (h : record ∈ delivered rt cap t st steps) : ∃ step ∈ steps, record ∈ step.1.records t := by
  induction steps generalizing st with
  | nil => exact absurd h List.not_mem_nil
  | cons step steps ih =>
    obtain ⟨op, commits⟩ := step
    rcases List.mem_append.1 h with hfirst | hrest
    · refine ⟨_, List.mem_cons_self, ?_⟩
      unfold Operation.delivers at hfirst
      split at hfirst
      · exact hfirst
      · exact absurd hfirst List.not_mem_nil
    · obtain ⟨step, hstep, hrecord⟩ := ih hrest
      exact ⟨step, List.mem_cons_of_mem _ hstep, hrecord⟩

def housePressing : BatchRecord :=
  batchRecord "2" [("sha256", .str "b"), ("genres", .arr [.str "House"])]

def dubPressing : BatchRecord :=
  batchRecord "2" [("sha256", .str "c"), ("genres", .arr [.str "Dub"])]

def technoPressing : BatchRecord :=
  batchRecord "3" [("sha256", .str "d"), ("genres", .arr [.str "Techno"])]

/-- A release that is gone from the dump, and the one the dump corrects. -/
def priorRun : List (Operation × Bool) :=
  [(.processBatch 1 .releases [batchRecord "1" [("sha256", .str "a")], housePressing], true)]

/-- A batch, a record that fails, the same one again, and a repetition. -/
def pressingSteps : List (Operation × Bool) :=
  [(.processBatch 11 .releases [dubPressing], true),
    (.persistRecord 12 .releases "3" technoPressing.data, false),
    (.persistRecord 13 .releases "3" technoPressing.data, true),
    (.persistRecord 14 .releases "2" dubPressing.data, true)]

theorem honest_of_pressings {steps : List (Operation × Bool)} {start : Store}
    (hrecords : ∀ step ∈ steps, ∀ record ∈ step.1.records .releases,
      record = dubPressing ∨ record = technoPressing)
    (hstored : ∀ entry ∈ (start.entities .releases).rows, entry.2.hash ≠ "c" ∧ entry.2.hash ≠ "d")
    (dataId : String) :
    Honest (versionsOf dataId (hashed (delivered concreteRuntime 1 .releases start steps)))
      (start.document .releases dataId) := by
  have hcases : ∀ record ∈ versionsOf dataId (hashed (delivered concreteRuntime 1 .releases start steps)),
      record = dubPressing ∨ record = technoPressing := by
    intro record hrecord
    obtain ⟨step, hstep, hmem⟩ := mem_delivered (mem_hashed.1 (List.mem_of_mem_filter hrecord)).1
    exact hrecords step hstep record hmem
  constructor
  case among =>
    intro a ha b hb hsame
    rcases hcases a ha with rfl | rfl <;> rcases hcases b hb with rfl | rfl
    · rfl
    · exact absurd (Json.str.inj hsame) (by decide)
    · exact absurd (Json.str.inj hsame) (by decide)
    · rfl
  case stored =>
    intro stored hpayload record hrecord hsame
    rw [document_payload, Store.content, Option.map_map] at hpayload
    obtain ⟨row, hrow, rfl⟩ := Option.map_eq_some_iff.1 hpayload
    obtain ⟨hdub, htechno⟩ := hstored (dataId, row) ((Table.mem_rows _ _ _).2 hrow)
    rcases hcases record hrecord with rfl | rfl
    · exact absurd (Json.str.inj hsame).symm hdub
    · exact absurd (Json.str.inj hsame).symm htechno

theorem pressingSteps_records : ∀ step ∈ pressingSteps, ∀ record ∈ step.1.records .releases,
    record = dubPressing ∨ record = technoPressing := by
  intro step hstep record hrecord
  simp only [pressingSteps, List.mem_cons, List.not_mem_nil, or_false] at hstep
  rcases hstep with rfl | rfl | rfl | rfl
  · exact .inl (List.mem_singleton.1 hrecord)
  · exact .inr (List.mem_singleton.1 hrecord)
  · exact .inr (List.mem_singleton.1 hrecord)
  · exact .inl (List.mem_singleton.1 hrecord)

def pressingReload : Extraction concreteRuntime 1 .releases where
  before := priorRun
  steps := pressingSteps
  startedAt := 10
  recordCount := some 2
  loads := by
    intro step hstep
    simp only [pressingSteps, List.mem_cons, List.not_mem_nil, or_false] at hstep
    rcases hstep with rfl | rfl | rfl | rfl <;> exact fun _ => by decide
  predates := by
    have hrows : ∀ entry ∈ ((runOperations concreteRuntime 1 priorRun).entities .releases).rows,
        entry.2.stale 10 = true := by decide +kernel
    exact fun dataId row hrow => hrows (dataId, row) ((Table.mem_rows _ _ _).2 hrow)
  reported := by decide
  belowCap := by decide +kernel
  honest := honest_of_pressings pressingSteps_records (by decide +kernel)

/-- The same dump, in one batch, into empty tables. -/
def freshReload : Extraction concreteRuntime 1 .releases where
  before := []
  steps := [(.processBatch 11 .releases [technoPressing, dubPressing], true)]
  startedAt := 10
  recordCount := none
  loads := by
    intro step hstep
    obtain rfl := List.mem_singleton.1 hstep
    exact fun _ => by decide
  predates _ _ hrow := by cases hrow
  reported := by decide
  belowCap := by decide +kernel
  honest := by
    refine honest_of_pressings (fun step hstep record hrecord => ?_) (by decide +kernel)
    obtain rfl := List.mem_singleton.1 hstep
    have hlatest : record ∈ [technoPressing, dubPressing] := hrecord
    simp only [List.mem_cons, List.not_mem_nil, or_false] at hlatest
    exact hlatest.symm

theorem reload_mirrors_pressings :
    Mirrors concreteRuntime .releases pressingReload.deliveries pressingReload.final :=
  reload_mirrors_dump pressingReload

theorem pressing_accepted : ∀ record ∈ [dubPressing, technoPressing], Accepts concreteRuntime .releases record := by
  intro record hrecord
  simp only [List.mem_cons, List.not_mem_nil, or_false] at hrecord
  rcases hrecord with rfl | rfl
  · exact ⟨⟨rfl, fun _ => rfl⟩, rfl⟩
  · exact ⟨⟨rfl, fun _ => rfl⟩, rfl⟩

theorem pressingReload_deliveries :
    pressingReload.deliveries = [dubPressing, technoPressing, dubPressing] := by
  have hdub : ∀ record ∈ [dubPressing], Accepts concreteRuntime .releases record :=
    fun record hrecord => pressing_accepted record (List.mem_cons.2 (.inl (List.mem_singleton.1 hrecord)))
  have htechno : ∀ record ∈ [technoPressing], Accepts concreteRuntime .releases record :=
    fun record hrecord => pressing_accepted record (List.mem_cons_of_mem _ hrecord)
  show hashed (delivered concreteRuntime 1 .releases _ pressingSteps) = _
  rw [pressingSteps, delivered, Operation.delivers_of_accepts rfl hdub, delivered, delivered,
    Operation.delivers_of_accepts rfl htechno, delivered, Operation.delivers_of_accepts rfl hdub]
  rfl

theorem freshReload_deliveries : freshReload.deliveries = [technoPressing, dubPressing] := by
  have hlatest : ∀ record ∈ [technoPressing, dubPressing], Accepts concreteRuntime .releases record :=
    fun record hrecord => pressing_accepted record (by simpa [or_comm] using hrecord)
  show hashed (delivered concreteRuntime 1 .releases _ [_]) = _
  rw [delivered, Operation.delivers_of_accepts rfl hlatest]
  rfl

theorem reloads_agree_pressings :
    ((pressingReload.final.entities .releases).lookup "2").map (fun row => (row.hash, row.data)) =
      ((freshReload.final.entities .releases).lookup "2").map (fun row => (row.hash, row.data)) := by
  refine (reloads_agree pressingReload freshReload (fun dataId => ?_) "2").1
  rw [pressingReload_deliveries, freshReload_deliveries]
  by_cases htwo : dataId = "2"
  · subst htwo
    rfl
  · by_cases hthree : dataId = "3"
    · subst hthree
      rfl
    · have hnone : ∀ records : List BatchRecord, (∀ record ∈ records, record.dataId = "2" ∨ record.dataId = "3") →
          versionsOf dataId records = [] := by
        intro records hids
        refine versionsOf_eq_nil fun hmem => ?_
        obtain ⟨record, hrecord, rfl⟩ := List.mem_map.1 hmem
        rcases hids record hrecord with hid | hid
        · exact htwo hid
        · exact hthree hid
      rw [hnone _ (by decide), hnone _ (by decide)]

end Tableinator
