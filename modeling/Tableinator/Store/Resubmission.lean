import Tableinator.Store.Repetition

/-! # Documents submitted again

A write that failed half way leaves the store with some of its documents.  Submitting the
whole list again meets those as unchanged rows: it leaves the store that it would have
left had it met none of them, down to the time each row was last written. -/

namespace Tableinator

open Effect Relational Tableinator.Graph

variable {rt : Runtime} {t t' : DataType} {st st' mid : Store} {dataId : String} {now : Time}
variable {record : BatchRecord} {first rest records : List BatchRecord}

/-! ## What a second submission leaves -/

/-- A stored row takes nothing from the record it came from. -/
theorem accepted_again {hash : String} (htext : record.sha256 = .str hash) (prior : Option Content) :
    accepted rt t record (accepted rt t record prior) = accepted rt t record prior := by
  have hstored : sameHash ((accepted rt t record prior).map Content.hash) record.sha256 = true := by
    rw [hash_accepted, htext, hashAfter_str, sameHash_str]
  rw [accepted, if_pos hstored, accepted]
  by_cases hsame : sameHash (prior.map Content.hash) record.sha256 = true
  · rw [if_pos hsame, Option.map_map]
    congr 1
    funext row
    by_cases ht : t = .releases <;> simp [ht, Option.or_assoc]
  · rw [if_neg hsame, Option.map_map]
    congr 1
    funext hash
    by_cases ht : t = .releases <;> simp [ht]

/-- The documents written already are new to no one. -/
theorem Leaves.newDocuments_nil (h : Leaves rt t st records mid)
    (htexts : ∀ record ∈ records, ∃ hash, record.sha256 = .str hash) :
    newDocuments t mid records = [] := by
  have hstored : ∀ record ∈ records, HashUnchanged t record.dataId record.sha256 mid := by
    intro record hrecord
    obtain ⟨hash, htext⟩ := htexts record hrecord
    rw [HashUnchanged, h.hash hrecord, htext, hashAfter_str, sameHash_str]
  have hnone : records.filter (fun record => ¬HashUnchanged t record.dataId record.sha256 mid) = [] := by
    refine List.filter_eq_nil_iff.2 fun record hrecord => ?_
    simp [hstored record hrecord]
  rw [newDocuments, hnone, List.map_nil]

theorem minted_prefix (hpart : first <+: records) (ref : AliasRef) :
    (minted rt t first ref).or (minted rt t records ref) = minted rt t records ref := by
  obtain ⟨rest, rfl⟩ := hpart
  rw [minted_append, ← Option.or_assoc, Option.or_self]

/-- The whole list leaves the same rows where its first records were written before. -/
theorem Leaves.again (hids : (records.map (·.dataId)).Nodup)
    (htexts : ∀ record ∈ records, ∃ hash, record.sha256 = .str hash) (hpart : first <+: records)
    (hfirst : Leaves rt t st first mid) (hall : Leaves rt t mid records st') :
    Leaves rt t st records st' := by
  obtain ⟨rest, rfl⟩ := hpart
  have hfirstTexts : ∀ record ∈ first, ∃ hash, record.sha256 = .str hash :=
    fun record hrecord => htexts record (List.mem_append_left _ hrecord)
  have hdisjoint : ∀ other ∈ rest, other.dataId ∉ first.map (·.dataId) := by
    intro other hother hmem
    rw [List.map_append, List.nodup_append'] at hids
    exact hids.2.2 hmem (List.mem_map_of_mem (f := (·.dataId)) hother)
  have hmet : ∀ other ∈ rest, mid.content t other.dataId = st.content t other.dataId :=
    fun other hother => hfirst.unwritten other.dataId (hdisjoint other hother)
  have hnew : newDocuments t mid (first ++ rest) = newDocuments t st rest := by
    rw [newDocuments_append, hfirst.newDocuments_nil hfirstTexts, newDocuments_congr hmet, List.nil_append]
  have hfresh : ∀ document ∈ newDocuments t st first,
      document.1 ∉ (newDocuments t st rest).map Prod.fst := by
    intro document hdocument hmem
    obtain ⟨record, hrecord, rfl⟩ := mem_of_mem_newDocuments hdocument
    obtain ⟨other, hother, hid⟩ := List.mem_map.1 hmem
    obtain ⟨record', hrecord', rfl⟩ := mem_of_mem_newDocuments hother
    exact hdisjoint record' hrecord' (List.mem_map.2 ⟨record, hrecord, hid.symm⟩)
  constructor
  case others =>
    intro t' dataId ht
    rw [hall.others t' dataId ht, hfirst.others t' dataId ht]
  case unwritten =>
    intro dataId hmem
    have hnot : dataId ∉ first.map (·.dataId) := by
      rw [List.map_append, List.mem_append, not_or] at hmem
      exact hmem.1
    rw [hall.unwritten dataId hmem, hfirst.unwritten dataId hnot]
  case written =>
    intro record hrecord
    rw [hall.written record hrecord]
    rcases List.mem_append.1 hrecord with hrecord | hrecord
    · obtain ⟨hash, htext⟩ := hfirstTexts record hrecord
      rw [hfirst.written record hrecord, accepted_again htext]
    · rw [hmet record hrecord]
  case vertices => rw [hall.vertices, hnew, hfirst.vertices, newDocuments_append, withVertices_append]
  case edges => rw [hall.edges, hnew, hfirst.edges, newDocuments_append, withEdges_append hfresh]
  case aliases =>
    intro ref
    rw [hall.aliases, hfirst.aliases, Option.or_assoc, minted_prefix (List.prefix_append first rest)]

/-! ## When a row was written -/

/-- `updated_at`. -/
def Store.writtenAt (st : Store) (t : DataType) (dataId : String) : Option Time :=
  ((st.entities t).lookup dataId).map (·.updatedAt)

/-- The same rows written at the same times are the same store. -/
theorem Store.Same.eq {a b : Store} (h : a.Same b)
    (hwritten : ∀ t dataId, a.writtenAt t dataId = b.writtenAt t dataId) : a = b := by
  have hentities : a.entities = b.entities := by
    funext t
    refine Table.ext fun dataId => ?_
    have hcontent := h.content t dataId
    have hstamp := hwritten t dataId
    simp only [Store.content, Store.writtenAt] at hcontent hstamp
    cases ha : (a.entities t).lookup dataId with
    | none =>
      rw [ha, Option.map_none] at hcontent
      exact (Option.map_eq_none_iff.1 hcontent.symm).symm
    | some row =>
      rw [ha, Option.map_some] at hcontent hstamp
      obtain ⟨row', hrow', hsame⟩ := Option.map_eq_some_iff.1 hcontent.symm
      rw [hrow', Option.map_some, Option.some.injEq] at hstamp
      rw [hrow', Option.some.injEq]
      obtain ⟨hash, data, media, gmItemId, updatedAt⟩ := row
      obtain ⟨hash', data', media', gmItemId', updatedAt'⟩ := row'
      obtain ⟨rfl, rfl, rfl, rfl⟩ := Content.mk.inj hsame
      obtain rfl : updatedAt = updatedAt' := hstamp
      rfl
  obtain ⟨entities, vertices, edges, aliases⟩ := a
  obtain rfl : entities = b.entities := hentities
  obtain rfl : vertices = b.vertices := funext h.vertices
  obtain rfl : edges = b.edges := funext h.edges
  obtain rfl : aliases = b.aliases := funext h.aliases
  rfl

/-- The rows of the records, and no other rows, were written at `now`. -/
structure Stamped (now : Time) (t : DataType) (records : List BatchRecord) (st st' : Store) : Prop where
  others : ∀ t' dataId, t' ≠ t → st'.writtenAt t' dataId = st.writtenAt t' dataId
  written : ∀ dataId, st'.writtenAt t dataId =
    if dataId ∈ records.map (·.dataId) then (st'.hash t dataId).map fun _ => now
    else st.writtenAt t dataId

/-- An `UPDATE` of the batch stamps the rows it names. -/
theorem writtenAt_unlessEmpty {β : Type} {rows : List β} {op : Statement PUnit} {result : PUnit}
    {ids : List String} {f : String → EntityRow → EntityRow} (hf : ∀ dataId row, (f dataId row).updatedAt = now)
    (hop : (engine.alone op st).2 =
      (Change.entities t (Statement.updated st ∅ t ids) fun dataId row => row.map (f dataId)).apply st)
    (hrows : rows = [] → ids = [])
    (h : (unlessEmpty rows op).serial engine.alone st = .ok (result, st')) :
    st'.writtenAt t' dataId = if t' = t ∧ dataId ∈ ids then (st.writtenAt t' dataId).map fun _ => now
      else st.writtenAt t' dataId := by
  rcases serial_unlessEmpty h with ⟨hnone, rfl⟩ | rfl
  · simp [hrows hnone]
  · have hstamp : (fun row : EntityRow => row.updatedAt) ∘ f dataId = (fun _ => now) := funext (hf dataId)
    rw [hop, Store.writtenAt, lookup_updated]
    split
    · rw [Option.map_map, hstamp, Store.writtenAt, Option.map_map]
      rfl
    · rfl

section

variable {messages : List BatchRecord} {existing : List Existing} {result : BatchWriteResult}

theorem mediaBackfills_subset {identified : List (BatchRecord × NativeId)}
    (h : dataId ∈ (mediaBackfills rt existing identified).map Prod.fst) :
    dataId ∈ (unchangedRecords existing identified).map (·.1.dataId) := by
  rw [mediaBackfills, List.map_map, List.mem_map] at h
  obtain ⟨entry, hentry, rfl⟩ := h
  exact List.mem_map.2 ⟨entry, List.mem_of_mem_filter hentry, rfl⟩

theorem identityBackfills_subset {identified : List (BatchRecord × NativeId)}
    (h : dataId ∈ (identityBackfills existing identified).map Prod.fst) :
    dataId ∈ (unchangedRecords existing identified).map (·.1.dataId) := by
  rw [identityBackfills, List.map_map, List.mem_map] at h
  obtain ⟨entry, hentry, rfl⟩ := h
  exact List.mem_map.2 ⟨entry, List.mem_of_mem_filter hentry, rfl⟩

/-- Every unchanged row is stamped, by the refresh or by a backfill. -/
theorem writtenAt_refreshUnchanged {identified : List (BatchRecord × NativeId)} {result : PUnit}
    (h : (refreshUnchanged rt now t existing identified).serial engine.alone st = .ok (result, st')) :
    st'.writtenAt t' dataId =
      if t' = t ∧ dataId ∈ (unchangedRecords existing identified).map (·.1.dataId) then
        (st.writtenAt t' dataId).map fun _ => now
      else st.writtenAt t' dataId := by
  obtain ⟨_, refreshed, hrefresh, h⟩ := Program.serial_bind_eq_ok h
  obtain ⟨_, filled, hfill, hidentity⟩ := Program.serial_bind_eq_ok h
  have hrefreshed := @writtenAt_unlessEmpty t t' st refreshed dataId now _ _ _ _ _
    (fun _ row => { row with updatedAt := now }) (fun _ _ => rfl) rfl id hrefresh
  have hfilled := @writtenAt_unlessEmpty t t' refreshed filled dataId now _ _ _ _ _
    (fun dataId row => { row with
      media := (mediaBackfills rt existing identified).lookup dataId, updatedAt := now })
    (fun _ _ => rfl) rfl (fun hnone => by rw [hnone, List.map_nil]) hfill
  have hidentified := @writtenAt_unlessEmpty t t' filled st' dataId now _ _ _ _ _
    (fun dataId row => { row with
      gmItemId := (identityBackfills existing identified).lookup dataId, updatedAt := now })
    (fun _ _ => rfl) rfl (fun hnone => by rw [hnone, List.map_nil]) hidentity
  have hrest : dataId ∈ refreshIds rt existing identified ↔
      dataId ∈ (unchangedRecords existing identified).map (·.1.dataId) ∧
        dataId ∉ (mediaBackfills rt existing identified).map Prod.fst ∧
        dataId ∉ (identityBackfills existing identified).map Prod.fst := by
    rw [refreshIds, List.mem_filter, decide_eq_true_eq]
  rw [hidentified, hfilled, hrefreshed]
  by_cases ht : t' = t
  · by_cases hidentity : dataId ∈ (identityBackfills existing identified).map Prod.fst
    · have hunchanged := identityBackfills_subset hidentity
      by_cases hmedia : dataId ∈ (mediaBackfills rt existing identified).map Prod.fst
      · simp only [ht, hidentity, hmedia, hunchanged, hrest, true_and, if_true, not_true_eq_false,
          and_false, if_false, Option.map_map, Function.comp_def]
      · simp only [ht, hidentity, hmedia, hunchanged, hrest, true_and, if_true, not_true_eq_false,
          and_false, if_false]
    · by_cases hmedia : dataId ∈ (mediaBackfills rt existing identified).map Prod.fst
      · have hunchanged := mediaBackfills_subset hmedia
        simp only [ht, hidentity, hmedia, hunchanged, hrest, true_and, if_true, not_true_eq_false,
          false_and, and_false, if_false]
      · simp only [ht, hidentity, hmedia, hrest, true_and, not_false_eq_true, and_true, if_false]
  · simp only [ht, false_and, if_false]

theorem updatedAt_overwrite (incoming : Incoming) (row : Option EntityRow) :
    (incoming.overwrite t now row).updatedAt = now := by
  cases row with
  | none => rfl
  | some row => rfl

theorem stamped_of_writtenAt {a : Option Time} (h : st'.writtenAt t dataId = a.map fun _ => now) :
    (a.map fun _ => now) = (((st'.entities t).lookup dataId).map (·.hash)).map fun _ => now := by
  rw [← h, Store.writtenAt, Option.map_map]
  cases hrow : (st'.entities t).lookup dataId with
  | none => rfl
  | some row =>
    rw [Store.writtenAt, hrow, Option.map_some] at h
    obtain ⟨_, _, hnow⟩ := Option.map_eq_some_iff.1 h.symm
    exact congrArg some hnow.symm

/-- A record of the batch is upserted, or its unchanged row is stamped. -/
theorem writtenAt_batch {existing : List Existing} {refreshed written : Store}
    (hrefused : refusedRecords rt existing (resolved rt t (latest messages)) t = [])
    (hresolved : ∀ record ∈ latest messages, ∃ nativeId, (record, nativeId) ∈ resolved rt t (latest messages))
    (hrefreshed : ∀ t' dataId, refreshed.writtenAt t' dataId =
      if t' = t ∧ dataId ∈ (unchangedRecords existing (resolved rt t (latest messages))).map
          (·.1.dataId) then (st.writtenAt t' dataId).map fun _ => now
      else st.writtenAt t' dataId)
    (hwritten : ∀ t' dataId, (written.entities t').lookup dataId =
      if t' = t then (((recordsToUpsert rt existing (resolved rt t (latest messages)) t).find?
        (·.dataId = dataId)).map fun incoming =>
          incoming.overwrite t now ((refreshed.entities t').lookup dataId)).or
            ((refreshed.entities t').lookup dataId)
      else (refreshed.entities t').lookup dataId) :
    Stamped now t (latest messages) st written := by
  constructor
  case others =>
    intro t' dataId ht
    rw [Store.writtenAt, hwritten, if_neg ht, ← Store.writtenAt, hrefreshed]
    simp [ht]
  case written =>
    intro dataId
    rw [Store.writtenAt, hwritten, if_pos rfl]
    by_cases hid : dataId ∈ (latest messages).map (·.dataId)
    · rw [if_pos hid, Store.hash, hwritten, if_pos rfl]
      obtain ⟨record, hrecord, rfl⟩ := List.mem_map.1 hid
      obtain ⟨nativeId, hmem⟩ := hresolved record hrecord
      rw [upserted_of_resolved hmem]
      by_cases hunchanged : unchanged existing record = true
      · -- the gate held it back, so one of the three updates stamped its row
        have hkept : record.dataId ∈
            (unchangedRecords existing (resolved rt t (latest messages))).map (·.1.dataId) :=
          List.mem_map.2 ⟨(record, nativeId), List.mem_filter.2 ⟨hmem, hunchanged⟩, rfl⟩
        have hstamp := hrefreshed t record.dataId
        rw [if_pos ⟨rfl, hkept⟩] at hstamp
        rw [if_pos hunchanged, Option.map_none, Option.none_or, ← Store.writtenAt, hstamp]
        exact stamped_of_writtenAt hstamp
      · obtain ⟨hash, hhash⟩ := rowHash_of_changed hrefused hmem (Bool.eq_false_iff.2 hunchanged)
        rw [if_neg hunchanged, hhash, Option.map_some, Option.map_some, Option.some_or, Option.map_some,
          Option.map_some, Option.map_some, updatedAt_overwrite]
    · have hgone : dataId ∉
          (unchangedRecords existing (resolved rt t (latest messages))).map (·.1.dataId) := by
        intro hmem
        obtain ⟨entry, hentry, hsame⟩ := List.mem_map.1 hmem
        exact foreign_of_resolved hid (List.mem_of_mem_filter hentry) hsame
      rw [if_neg hid, upserted_of_foreign hid, Option.map_none, Option.none_or, ← Store.writtenAt, hrefreshed,
        if_neg fun hkept => hgone hkept.2]

/-- `process_batch` stamps its records with the time of its transaction. -/
theorem processBatch_stamped
    (h : (processBatch rt now t messages).serial engine.alone st = .ok (result, st')) :
    Stamped now t (latest messages) st st' := by
  have hidentifiable : ∀ record ∈ latest messages, Identifiable rt t record :=
    fun record hrecord => (admits_of_processBatch h record hrecord).toIdentifiable
  obtain ⟨existing, selected, hread, h⟩ := Program.serial_bind_eq_ok h
  obtain ⟨hexisting, rfl⟩ := Prod.mk.inj (Except.ok.inj hread)
  dsimp only at h
  split at h
  · cases h
  · next hmissing =>
    split at h
    · cases h
    · next targets htargets =>
      obtain ⟨_, refreshed, hrefresh, h⟩ := Program.serial_bind_eq_ok h
      obtain ⟨_, written, hwrite, h⟩ := Program.serial_bind_eq_ok h
      obtain ⟨_, rfl⟩ := Prod.mk.inj (Except.ok.inj h)
      have hids : ((changedDocuments existing (resolved rt t (latest messages))).map Prod.fst).Nodup := by
        rw [changedDocuments_resolved hidentifiable, List.map_map]
        exact (latest_nodup messages).sublist (List.filter_sublist.map _)
      have hrefused := (serial_writeChanged_eq_ok hwrite).1
      obtain ⟨other, hother, hentities, -⟩ := @serial_writeChanged rt t refreshed existing now
        (resolved rt t (latest messages)) targets hrefused hids
      obtain ⟨_, rfl⟩ := Prod.mk.inj (Except.ok.inj (hwrite.symm.trans hother))
      exact writtenAt_batch hrefused (fun record hrecord => mem_resolved (not_not.1 hmissing) hrecord)
        (fun t' dataId => writtenAt_refreshUnchanged hrefresh) hentities

end

end Tableinator
