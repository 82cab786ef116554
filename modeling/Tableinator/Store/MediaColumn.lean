import Tableinator.Store.Serial

/-! # The media column and the `issued_on` edges

Both are derived from the payload's media block, but under different conditions: the
column is written for a changed payload and filled in where it is `NULL`, the edges
are written for a changed payload only.  So a write makes the two agree exactly if the
payload changed, or if the edges already were those of the column the write leaves. -/

namespace Tableinator

open Effect Relational Tableinator.Graph

section

variable (rt : Runtime)

/-- The `issued_on` rows `_media_rows` derives from a media column. -/
def issuedOnRows (dataId : String) (media : Option Json) : List (EdgeRow .issuedOn) :=
  match media with
  | some (.obj block) => (mediaRows rt block).map (MediaItem.issuedOn dataId)
  | _ => []

/-- The release's `issued_on` rows are the ones of this media column. -/
def IssuedOn (dataId : String) (media : Option Json) (st : Store) : Prop :=
  ∀ edge : EdgeRow .issuedOn, edge ∈ st.edges .issuedOn ∧ edge.Names dataId ↔
    edge ∈ issuedOnRows rt dataId media

/-- The release's `issued_on` rows are the ones of its stored media column. -/
def MediaAgrees (dataId : String) (st : Store) : Prop :=
  ∀ row, (st.entities .releases).lookup dataId = some row → IssuedOn rt dataId row.media st

/-- A redelivery of the stored payload finds the rows of the column it leaves: the stored one,
    or where that is `NULL` the one it fills in. -/
def MediaPrepared (dataId : String) (sha256 : Json) (data : Document) (st : Store) : Prop :=
  ∀ row, (st.entities .releases).lookup dataId = some row → sha256 = .str row.hash →
    IssuedOn rt dataId (row.media.or (some (.obj (mediaForRelease rt data)))) st

end

variable {rt : Runtime} {t : DataType} {dataId : String} {data : Document} {st st' : Store}

theorem Written.issuedOn {l : Local Slot Store} (h : Written rt .releases dataId data l) :
    IssuedOn rt dataId (some (.obj (mediaForRelease rt data))) l.view := by
  intro edge
  have hr : EdgeRelation.issuedOn ∈ (deriveDocument rt .releases dataId data).replaced := by
    simp [deriveDocument, deriveRelease]
  constructor
  · exact fun hedge => (h.exact .issuedOn hr edge hedge.2).1 hedge.1
  · intro hderived
    have hmem : edge ∈ (deriveDocument rt .releases dataId data).edges .issuedOn := hderived
    have hnames : edge.Names dataId := names_of_derived (by decide) hmem
    exact ⟨(h.exact .issuedOn hr edge hnames).2 hderived, hnames⟩

theorem IssuedOn.congr {media : Option Json} (h : IssuedOn rt dataId media st)
    (hedges : ∀ edge : EdgeRow .issuedOn, edge.Names dataId →
      (edge ∈ st'.edges .issuedOn ↔ edge ∈ st.edges .issuedOn)) : IssuedOn rt dataId media st' := by
  intro edge
  rw [← h edge]
  constructor
  · exact fun hedge => ⟨(hedges edge hedge.2).1 hedge.1, hedge.2⟩
  · exact fun hedge => ⟨(hedges edge hedge.2).2 hedge.1, hedge.2⟩

/-- The document was rewritten: the two agree, whatever was there. -/
theorem mediaAgrees_of_written {l : Local Slot Store} {sha256 : Json} {row : EntityRow}
    (h : Written rt .releases dataId data l)
    (hrow : (l.view.entities .releases).lookup dataId = some row)
    (hmedia : row.media = some (.obj (mediaForRelease rt data)))
    (hchanged : ¬HashUnchanged .releases dataId sha256 st) :
    MediaAgrees rt dataId l.view ↔ MediaPrepared rt dataId sha256 data st := by
  constructor
  · intro _ row' hrow' hhash
    exact absurd (by simp [HashUnchanged, Store.hash, hrow', hhash]) hchanged
  · intro _ row' hrow'
    rw [hrow] at hrow'
    obtain rfl := Option.some.inj hrow'
    rw [hmedia]
    exact h.issuedOn

/-- The document was left: they agree if the edges were those of the column now stored. -/
theorem mediaAgrees_of_left {sha256 : Json} {row row' : EntityRow}
    (hrow : (st.entities .releases).lookup dataId = some row) (hhash : sha256 = .str row.hash)
    (hrow' : (st'.entities .releases).lookup dataId = some row')
    (hmedia : row'.media = row.media.or (some (.obj (mediaForRelease rt data))))
    (hedges : ∀ edge : EdgeRow .issuedOn, edge.Names dataId →
      (edge ∈ st'.edges .issuedOn ↔ edge ∈ st.edges .issuedOn)) :
    MediaAgrees rt dataId st' ↔ MediaPrepared rt dataId sha256 data st := by
  constructor
  · intro hagrees other hother _
    rw [hrow] at hother
    obtain rfl := Option.some.inj hother
    rw [← hmedia]
    exact (hagrees row' hrow').congr fun edge hnames => (hedges edge hnames).symm
  · intro hprepared other hother
    rw [hrow'] at hother
    obtain rfl := Option.some.inj hother
    rw [hmedia]
    exact (hprepared row hrow hhash).congr hedges

/-! ## One record -/

theorem entities_attachAliasTargets (targets : List (AliasRef × NativeId)) :
    Program.Issues (fun op => ∀ st, (engine.alone op st).2.entities = st.entities)
      (attachAliasTargets targets) := issues_unlessEmpty fun _ => rfl

theorem entities_writeDocumentGraph (documents : List (String × Document)) :
    Program.Issues (fun op => ∀ st, (engine.alone op st).2.entities = st.entities)
      (writeDocumentGraph rt t documents) :=
  issues_writeDocumentGraph (fun _ _ => rfl) (fun _ _ => rfl) fun _ _ => rfl

theorem serial_entities {α : Type} {program : Transaction α} {a : α}
    (hissues : Program.Issues (fun op => ∀ st, (engine.alone op st).2.entities = st.entities) program)
    (h : program.serial engine.alone st = .ok (a, st')) : st'.entities = st.entities :=
  Program.serial_of_issues (I := fun st' => st'.entities = st.entities)
    (fun _ st' hop hst => (hop st').trans hst) hissues rfl h

theorem serial_edges {α : Type} {program : Transaction α} {a : α}
    (hissues : Program.Issues (fun op => ∀ st, (engine.alone op st).2.edges = st.edges) program)
    (h : program.serial engine.alone st = .ok (a, st')) : st'.edges = st.edges :=
  Program.serial_of_issues (I := fun st' => st'.edges = st.edges)
    (fun _ st' hop hst => (hop st').trans hst) hissues rfl h

/-- Rewriting the graph rows of a stored document, alone. -/
theorem written_of_serial {result : PUnit} (hstored : Stored t dataId data st)
    (h : (writeDocumentGraph rt t [(dataId, data)]).serial engine.alone st = .ok (result, st')) :
    ∃ held, Written rt t dataId data ⟨st', held⟩ :=
  Guarded.serial_of_held (G := documentGuard rt t dataId) gateAgrees_self
    (Finset.mem_singleton_self _)
    (written_writeDocumentGraph List.mem_cons_self (by simp) (Finset.mem_singleton_self _) hstored) h

theorem upserted_media {now : Time} {hash : String} {gmItemId : NativeId} {row : Option EntityRow} :
    ((recordParameters rt .releases hash dataId data gmItemId).revise .releases now row).media =
      match row with
      | some stored => if stored.hash = hash then
          stored.media.or (some (.obj (mediaForRelease rt data)))
        else some (.obj (mediaForRelease rt data))
      | none => some (.obj (mediaForRelease rt data)) := by
  cases row with
  | none => rfl
  | some stored =>
    by_cases hhash : stored.hash = hash
    · cases hmedia : stored.media <;>
        simp [Incoming.revise, recordParameters, mediaColumn, hhash, hmedia]
    · simp [Incoming.revise, recordParameters, mediaColumn, hhash]

theorem persistRecord_mediaAgrees {now : Time} {outcome : Outcome}
    (h : (persistRecord rt now .releases dataId data).serial engine.alone st = .ok (outcome, st')) :
    MediaAgrees rt dataId st' ↔ MediaPrepared rt dataId (contentHash data) data st := by
  unfold persistRecord at h
  cases hresolve : rt.resolveAlias (aliasRef .releases dataId) with
  | none => simp [hresolve] at h
  | some gmItemId =>
    cases hrowHash : rowHash rt .releases dataId data (contentHash data) with
    | none => simp [hresolve, hrowHash] at h
    | some hash =>
      simp only [hresolve, hrowHash] at h
      obtain ⟨-, hcontent⟩ := rowHash_eq_some.1 hrowHash
      rw [hcontent]
      obtain ⟨prior, upserted, hupsert, h⟩ := Program.serial_bind_eq_ok h
      obtain ⟨rfl, rfl⟩ := Prod.mk.inj (Except.ok.inj hupsert)
      have hlookup := lookup_upsertRecord .releases now
        (recordParameters rt .releases hash dataId data gmItemId) st st ∅
      cases htargets : aliasTargets rt .releases [(data, gmItemId)] with
      | none => simp [htargets] at h
      | some targets =>
        simp only [htargets] at h
        obtain ⟨_, attached, hattach, h⟩ := Program.serial_bind_eq_ok h
        have hattached := serial_entities (entities_attachAliasTargets targets) hattach
        by_cases hsame : StoresHash .releases dataId hash st
        · -- the stored hash: the column is filled if `NULL`, and no edge is written
          have hchanged : contentChanged (engine.alone (Statement.upsertRecord .releases now
              (recordParameters rt .releases hash dataId data gmItemId)) st).1 = false :=
            (contentChanged_eq_false_iff .releases now
              (recordParameters rt .releases hash dataId data gmItemId) st).2 hsame
          rw [if_neg (by simp [hchanged])] at h
          obtain ⟨_, rfl⟩ := Prod.mk.inj (Except.ok.inj h)
          obtain ⟨row, hrow, hhash⟩ := Option.map_eq_some_iff.1 hsame
          refine mediaAgrees_of_left hrow (by rw [hhash]) ((congrArg (fun entities =>
            (entities .releases).lookup dataId) hattached).trans hlookup) ?_ fun edge _ => ?_
          · have hid : (recordParameters rt .releases hash dataId data gmItemId).dataId = dataId := rfl
            rw [upserted_media, hid, hrow]
            exact if_pos hhash
          · rw [serial_edges (issues_unlessEmpty fun _ => rfl) hattach]
            exact Iff.rfl
        · have hchanged : contentChanged (engine.alone (Statement.upsertRecord .releases now
              (recordParameters rt .releases hash dataId data gmItemId)) st).1 = true := by
            rw [← Bool.not_eq_false]
            exact fun hfalse => hsame ((contentChanged_eq_false_iff .releases now
              (recordParameters rt .releases hash dataId data gmItemId) st).1 hfalse)
          rw [if_pos hchanged] at h
          -- another hash: column and edges are both written from this payload
          obtain ⟨_, written, hwrite, h⟩ := Program.serial_bind_eq_ok h
          obtain ⟨_, rfl⟩ := Prod.mk.inj (Except.ok.inj h)
          have hupserted : Stored .releases dataId data (((Statement.upsertRecord .releases now
              (recordParameters rt .releases hash dataId data gmItemId)).change st ∅).apply st) :=
            stored_upsertRecord now st ∅ fun hstores => absurd hstores hsame
          have hstored : Stored .releases dataId data attached := by
            rw [Stored, hattached]
            exact hupserted
          obtain ⟨held, hwritten⟩ := written_of_serial hstored hwrite
          have hentities := serial_entities (entities_writeDocumentGraph _) hwrite
          refine mediaAgrees_of_written hwritten ((congrArg (fun entities =>
            (entities .releases).lookup dataId) (hentities.trans hattached)).trans hlookup) ?_
            (mt hashUnchanged_str.1 hsame)
          have hid : (recordParameters rt .releases hash dataId data gmItemId).dataId = dataId := rfl
          rw [upserted_media, hid]
          cases hrow : (st.entities .releases).lookup dataId with
          | none => rfl
          | some row =>
            refine if_neg fun hhash => hsame ?_
            simp [StoresHash, hrow, hhash]

/-! ## One batch -/

section

variable {messages records : List BatchRecord} {record : BatchRecord} {existing : List Existing}
variable {now : Time}

/-- What the batch's `SELECT` reports of one of its ids. -/
theorem find_existing {ids : List String} (hmem : dataId ∈ ids) :
    ((Statement.selectExisting t ids).read st).find? (·.dataId = dataId) =
      ((st.entities t).lookup dataId).map fun row =>
        ⟨dataId, row.hash, t = .releases ∧ row.media.isNone, row.gmItemId.isNone⟩ := by
  simp only [Statement.read]
  induction ids with
  | nil => cases hmem
  | cons id ids ih =>
    by_cases hid : id = dataId
    · subst hid
      cases hrow : (st.entities t).lookup id with
      | none =>
        rw [List.filterMap_cons_none (by simp [hrow])]
        by_cases hagain : id ∈ ids
        · rw [ih hagain, hrow]
        · rw [List.find?_eq_none.2]
          · rfl
          · intro entry hentry
            obtain ⟨other, hother, hmap⟩ := List.mem_filterMap.1 hentry
            obtain ⟨row, _, rfl⟩ := Option.map_eq_some_iff.1 hmap
            simp only [decide_eq_true_eq]
            exact fun heq => hagain (heq ▸ hother)
      | some row =>
        rw [List.filterMap_cons_some (by rw [hrow]; rfl), List.find?_cons_of_pos (by simp)]
        rfl
    · have hmem' : dataId ∈ ids := (List.mem_cons.1 hmem).resolve_left (Ne.symm hid)
      rw [← ih hmem']
      cases hrow : (st.entities t).lookup id with
      | none => rw [List.filterMap_cons_none (by simp [hrow])]
      | some row =>
        rw [List.filterMap_cons_some (by rw [hrow]; rfl), List.find?_cons_of_neg (by simpa using hid)]

theorem unchanged_iff (hrecord : record ∈ records) :
    unchanged ((Statement.selectExisting t (records.map (·.dataId))).read st) record = true ↔
      HashUnchanged t record.dataId record.sha256 st := by
  have hids : record.dataId ∈ records.map (·.dataId) := List.mem_map_of_mem (f := (·.dataId)) hrecord
  rw [unchanged, find_existing hids, HashUnchanged, Store.hash, Option.map_map]
  exact Iff.rfl

/-- The release is stored with this media column. -/
def HasMedia (dataId : String) (media : Option Json) (st : Store) : Prop :=
  ∃ row, (st.entities .releases).lookup dataId = some row ∧ row.media = media

theorem hasMedia_update {media : Option Json} {ids : List String} {f : String → EntityRow → EntityRow}
    (hf : dataId ∈ ids → ∀ row, row.media = media → (f dataId row).media = media)
    (h : HasMedia dataId media st) : HasMedia dataId media
      ((Change.entities .releases ids fun dataId row => row.map (f dataId)).apply st) := by
  obtain ⟨row, hrow, hmedia⟩ := h
  by_cases hid : dataId ∈ ids
  · refine ⟨f dataId row, ?_, hf hid row hmedia⟩
    rw [lookup_entities_apply, if_pos ⟨rfl, hid⟩, hrow]
    rfl
  · refine ⟨row, ?_, hmedia⟩
    rw [lookup_entities_apply, if_neg fun hmine => hid hmine.2]
    exact hrow

theorem mem_mediaBackfills {block : Json} :
    (dataId, block) ∈ mediaBackfills rt existing (resolved rt t records) ↔
      ∃ record nativeId, (record, nativeId) ∈ resolved rt t records ∧ unchanged existing record = true ∧
        (existing.find? (·.dataId = record.dataId)).any (·.mediaIsNull) = true ∧
        record.dataId = dataId ∧ block = .obj (mediaForRelease rt record.data) := by
  simp only [mediaBackfills, unchangedRecords, List.mem_map, List.mem_filter, Prod.exists,
    Prod.mk.injEq]
  constructor
  · rintro ⟨record, nativeId, ⟨⟨hmem, hunchanged⟩, hnull⟩, hid, hblock⟩
    exact ⟨record, nativeId, hmem, hunchanged, hnull, hid, hblock.symm⟩
  · rintro ⟨record, nativeId, hmem, hunchanged, hnull, hid, hblock⟩
    exact ⟨record, nativeId, ⟨⟨hmem, hunchanged⟩, hnull⟩, hid, hblock.symm⟩

theorem mem_of_lookup {κ β : Type} [BEq κ] [LawfulBEq κ] {rows : List (κ × β)} {k : κ} {b : β}
    (h : rows.lookup k = some b) : (k, b) ∈ rows := by
  obtain ⟨before, after, rfl, _⟩ := List.lookup_eq_some_iff.1 h
  simp

/-- The backfill writes the block of the one record with the id. -/
theorem lookup_mediaBackfills (hrecord : record ∈ latest messages)
    (hmem : record.dataId ∈ (mediaBackfills rt existing (resolved rt t (latest messages))).map Prod.fst) :
    (mediaBackfills rt existing (resolved rt t (latest messages))).lookup record.dataId =
      some (.obj (mediaForRelease rt record.data)) := by
  cases hlookup : (mediaBackfills rt existing (resolved rt t (latest messages))).lookup
      record.dataId with
  | none =>
    obtain ⟨⟨id, block⟩, hentry, hid⟩ := List.mem_map.1 hmem
    have hne := List.lookup_eq_none_iff.1 hlookup _ hentry
    simp only at hid
    simp [hid] at hne
  | some block =>
    obtain ⟨other, nativeId, hother, _, _, hid, rfl⟩ := mem_mediaBackfills.1 (mem_of_lookup hlookup)
    have hsame : other = record := latest_injective (mem_of_mem_resolved hother).1 hrecord hid
    rw [hsame]

theorem serial_unlessEmpty {β : Type} {rows : List β} {op : Statement PUnit} {result : PUnit}
    (h : (unlessEmpty rows op).serial engine.alone st = .ok (result, st')) :
    (rows = [] ∧ st' = st) ∨ st' = (engine.alone op st).2 := by
  unfold unlessEmpty at h
  split at h
  · next hempty =>
    obtain ⟨_, rfl⟩ := Prod.mk.inj (Except.ok.inj h)
    exact .inl ⟨by simpa using hempty, rfl⟩
  · obtain ⟨_, rfl⟩ := Prod.mk.inj (Except.ok.inj h)
    exact .inr rfl

/-- The unchanged rows of a batch keep their media column, and a `NULL` one is filled in. -/
theorem hasMedia_refreshUnchanged {row : EntityRow} (hrecord : record ∈ latest messages)
    (hresolved : ∃ nativeId, (record, nativeId) ∈ resolved rt .releases (latest messages))
    (hunchanged : unchanged ((Statement.selectExisting .releases
      ((latest messages).map (·.dataId))).read st) record = true)
    (hrow : (st.entities .releases).lookup record.dataId = some row) {result : PUnit}
    (h : (refreshUnchanged rt now .releases ((Statement.selectExisting .releases
      ((latest messages).map (·.dataId))).read st) (resolved rt .releases (latest messages))).serial
        engine.alone st = .ok (result, st')) :
    HasMedia record.dataId (row.media.or (some (.obj (mediaForRelease rt record.data)))) st' := by
  have hids : record.dataId ∈ (latest messages).map (·.dataId) :=
    List.mem_map_of_mem (f := (·.dataId)) hrecord
  have hfind := @find_existing .releases record.dataId st _ hids
  rw [hrow, Option.map_some] at hfind
  generalize (Statement.selectExisting .releases ((latest messages).map (·.dataId))).read st = existing
    at hunchanged h hfind
  obtain ⟨_, refreshed, hrefresh, h⟩ := Program.serial_bind_eq_ok h
  obtain ⟨_, filled, hfill, hidentity⟩ := Program.serial_bind_eq_ok h
  -- the three statements in turn: only the second touches the column
  have hrefreshed : HasMedia record.dataId row.media refreshed := by
    rcases serial_unlessEmpty hrefresh with ⟨_, rfl⟩ | rfl
    · exact ⟨row, hrow, rfl⟩
    · exact hasMedia_update (f := fun _ row => { row with updatedAt := now }) (fun _ _ h => h)
        ⟨row, hrow, rfl⟩
  have hfilled : HasMedia record.dataId
      (row.media.or (some (.obj (mediaForRelease rt record.data)))) filled := by
    cases hmedia : row.media with
    | none =>
      obtain ⟨nativeId, hmem⟩ := hresolved
      have hnull : (existing.find? (·.dataId = record.dataId)).any (·.mediaIsNull) = true := by
        simp [hfind, hmedia]
      have hback : (record.dataId, Json.obj (mediaForRelease rt record.data)) ∈
          mediaBackfills rt existing (resolved rt .releases (latest messages)) :=
        mem_mediaBackfills.2 ⟨record, nativeId, hmem, hunchanged, hnull, rfl, rfl⟩
      have hbackIds := List.mem_map_of_mem (f := Prod.fst) hback
      obtain ⟨row', hrow', _⟩ := hrefreshed
      rcases serial_unlessEmpty hfill with ⟨hnone, _⟩ | rfl
      · rw [hnone] at hback
        cases hback
      · refine ⟨{ row' with media := (mediaBackfills rt existing (resolved rt .releases
          (latest messages))).lookup record.dataId, updatedAt := now }, ?_, ?_⟩
        · simp only [Engine.alone, engine, Statement.change]
          rw [lookup_entities_apply, if_pos ⟨rfl, by simp [Statement.updated, hbackIds, hrow']⟩, hrow']
          rfl
        · exact lookup_mediaBackfills hrecord hbackIds
    | some block =>
      rw [hmedia] at hrefreshed
      rcases serial_unlessEmpty hfill with ⟨_, rfl⟩ | rfl
      · exact hrefreshed
      · let backfills := mediaBackfills rt existing (resolved rt .releases (latest messages))
        refine hasMedia_update (f := fun dataId row => { row with
          media := backfills.lookup dataId, updatedAt := now }) (fun hid => ?_) hrefreshed
        -- the column is not `NULL`, so the id is not among the backfills
        obtain ⟨⟨id, other⟩, hentry, hsame⟩ := List.mem_map.1 (List.mem_of_mem_filter hid)
        obtain ⟨_, _, _, _, hnull, hid', _⟩ := mem_mediaBackfills.1 hentry
        simp only at hsame
        rw [hid', hsame, hfind] at hnull
        simp [hmedia] at hnull
  rcases serial_unlessEmpty hidentity with ⟨_, rfl⟩ | rfl
  · exact hfilled
  · let backfills := identityBackfills existing (resolved rt .releases (latest messages))
    exact hasMedia_update (f := fun dataId row => { row with
      gmItemId := backfills.lookup dataId, updatedAt := now }) (fun _ _ h => h) hfilled

/-- The statements of a batch from its upsert on leave a document the gate held back. -/
theorem edges_of_spares {α : Type} {program : Transaction α} {a : α} {edge : EdgeRow .issuedOn}
    (hissues : Program.Issues (fun op => ∀ snapshot dead,
      (op.change snapshot dead).Spares rt .releases dataId) program)
    (hnames : edge.Names dataId) (h : program.serial engine.alone st = .ok (a, st')) :
    edge ∈ st'.edges .issuedOn ↔ edge ∈ st.edges .issuedOn := by
  refine Program.serial_of_issues (I := fun st' => edge ∈ st'.edges .issuedOn ↔
    edge ∈ st.edges .issuedOn) (fun op st' hop hst => Iff.trans ?_ hst) hissues Iff.rfl h
  refine Store.get_edge_eq_iff.1 (Change.get_apply fun hwrites => ?_)
  have hguard := (hop st' ∅).guarded hwrites ⟨by decide, hnames⟩
  cases hguard

/-- A commit: PostgreSQL refused no row. -/
theorem serial_writeChanged_eq_ok {identified : List (BatchRecord × NativeId)}
    {targets : List (AliasRef × NativeId)} {result : PUnit}
    (h : (writeChanged rt now t existing identified targets).serial engine.alone st = .ok (result, st')) :
    refusedRecords rt existing identified t = [] ∧ (do
      unlessEmpty (recordsToUpsert rt existing identified t)
        (.upsertRecords t now (recordsToUpsert rt existing identified t))
      attachAliasTargets targets
      writeDocumentGraph rt t (changedDocuments existing identified) : Transaction PUnit).serial
        engine.alone st = .ok (result, st') := by
  unfold writeChanged at h
  dsimp only at h
  split at h
  · cases h
  · next hrefused => exact ⟨not_not.1 hrefused, h⟩

theorem hasMedia_writeChanged {media : Option Json} {targets : List (AliasRef × NativeId)}
    {result : PUnit} (hmine : ∀ incoming ∈ recordsToUpsert rt existing (resolved rt .releases records)
      .releases, incoming.dataId = dataId → incoming.media = media)
    (h : (writeChanged rt now .releases existing (resolved rt .releases records) targets).serial
      engine.alone st = .ok (result, st'))
    (hmedia : dataId ∉ (recordsToUpsert rt existing (resolved rt .releases records) .releases).map
      (·.dataId) → HasMedia dataId media st) : HasMedia dataId media st' := by
  obtain ⟨-, h⟩ := serial_writeChanged_eq_ok h
  obtain ⟨_, upserted, hupsert, h⟩ := Program.serial_bind_eq_ok h
  obtain ⟨_, attached, hattach, hwrite⟩ := Program.serial_bind_eq_ok h
  have hentities : st'.entities = upserted.entities :=
    (serial_entities (entities_writeDocumentGraph _) hwrite).trans
      (serial_entities (entities_attachAliasTargets targets) hattach)
  rw [HasMedia, hentities]
  rcases serial_unlessEmpty hupsert with ⟨hnone, rfl⟩ | rfl
  · exact hmedia (by simp [hnone])
  · simp only [Engine.alone, engine, Statement.change]
    by_cases hid : dataId ∈ (recordsToUpsert rt existing (resolved rt .releases records) .releases).map
        (·.dataId)
    · obtain ⟨found, hfound⟩ : ∃ found, (recordsToUpsert rt existing (resolved rt .releases records)
          .releases).find? (·.dataId = dataId) = some found := by
        rw [← Option.isSome_iff_exists, List.find?_isSome]
        obtain ⟨incoming, hincoming, hsame⟩ := List.mem_map.1 hid
        exact ⟨incoming, hincoming, by simpa using hsame⟩
      have hfoundMedia := hmine found (List.mem_of_find?_eq_some hfound)
        (by simpa using List.find?_some hfound)
      refine ⟨found.overwrite .releases now ((st.entities .releases).lookup dataId), ?_, ?_⟩
      · rw [lookup_entities_apply, if_pos ⟨rfl, hid⟩, hfound]
      · cases (st.entities .releases).lookup dataId with
        | none => exact hfoundMedia
        | some row => simpa [Incoming.overwrite] using hfoundMedia
    · obtain ⟨row, hrow, hrowMedia⟩ := hmedia hid
      refine ⟨row, ?_, hrowMedia⟩
      rw [lookup_entities_apply, if_neg fun hmine => hid hmine.2]
      exact hrow

/-! A document without a row gets none from the statements that do not name it. -/

theorem absent_update {ids : List String} {f : String → EntityRow → EntityRow}
    (h : (st.entities .releases).lookup dataId = none) :
    (((Change.entities t ids fun dataId row => row.map (f dataId)).apply st).entities .releases).lookup
      dataId = none := by
  rw [lookup_entities_apply]
  split
  · rw [h, Option.map_none]
  · exact h

theorem absent_refreshUnchanged {identified : List (BatchRecord × NativeId)} {result : PUnit}
    (hnone : (st.entities .releases).lookup dataId = none)
    (h : (refreshUnchanged rt now t existing identified).serial engine.alone st = .ok (result, st')) :
    (st'.entities .releases).lookup dataId = none := by
  have hissues : Program.Issues (fun op => ∀ st, (st.entities .releases).lookup dataId = none →
      ((engine.alone op st).2.entities .releases).lookup dataId = none)
      (refreshUnchanged rt now t existing identified) := by
    refine issues_refreshUnchanged (fun _ _ h => ?_) (fun rows _ h => ?_) fun rows _ h => ?_
    · exact absent_update (f := fun _ row => { row with updatedAt := now }) h
    · exact absent_update (f := fun dataId row => { row with
        media := rows.lookup dataId, updatedAt := now }) h
    · exact absent_update (f := fun dataId row => { row with
        gmItemId := rows.lookup dataId, updatedAt := now }) h
  exact Program.serial_of_issues (I := fun st' => (st'.entities .releases).lookup dataId = none)
    (fun _ st' hop hst => hop st' hst) hissues hnone h

theorem absent_writeChanged {identified : List (BatchRecord × NativeId)}
    {targets : List (AliasRef × NativeId)} {result : PUnit}
    (hforeign : ∀ incoming ∈ recordsToUpsert rt existing identified t, incoming.dataId ≠ dataId)
    (hnone : (st.entities .releases).lookup dataId = none)
    (h : (writeChanged rt now t existing identified targets).serial engine.alone st = .ok (result, st')) :
    (st'.entities .releases).lookup dataId = none := by
  obtain ⟨-, h⟩ := serial_writeChanged_eq_ok h
  obtain ⟨_, upserted, hupsert, h⟩ := Program.serial_bind_eq_ok h
  obtain ⟨_, attached, hattach, hwrite⟩ := Program.serial_bind_eq_ok h
  rw [serial_entities (entities_writeDocumentGraph _) hwrite,
    serial_entities (entities_attachAliasTargets targets) hattach]
  rcases serial_unlessEmpty hupsert with ⟨-, rfl⟩ | rfl
  · exact hnone
  · simp only [Engine.alone, engine, Statement.change]
    rw [lookup_entities_apply, if_neg fun hmine => ?_]
    · exact hnone
    · obtain ⟨incoming, hincoming, hid⟩ := List.mem_map.1 hmine.2
      exact hforeign incoming hincoming hid

theorem processBatch_mediaAgrees {result : BatchWriteResult}
    (h : (processBatch rt now .releases messages).serial engine.alone st = .ok (result, st'))
    (hrecord : record ∈ latest messages) :
    MediaAgrees rt record.dataId st' ↔
      MediaPrepared rt record.dataId record.sha256 record.data st := by
  obtain ⟨existing, selected, hselect, h⟩ := Program.serial_bind_eq_ok h
  obtain ⟨rfl, rfl⟩ : (Statement.selectExisting .releases ((latest messages).map (·.dataId))).read st =
      existing ∧ st = selected := Prod.mk.inj (Except.ok.inj hselect)
  dsimp only at h
  split at h
  · cases h
  · next hmissing =>
    split at h
    · cases h
    · next targets _ =>
      obtain ⟨_, refreshed, hrefresh, h⟩ := Program.serial_bind_eq_ok h
      obtain ⟨_, written, hwrite, h⟩ := Program.serial_bind_eq_ok h
      obtain ⟨_, rfl⟩ := Prod.mk.inj (Except.ok.inj h)
      obtain ⟨nativeId, hresolved⟩ := mem_resolved (not_not.1 hmissing) hrecord
      have hunique : ∀ {other : BatchRecord} {nativeId' : NativeId},
          (other, nativeId') ∈ resolved rt .releases (latest messages) →
          other.dataId = record.dataId → other = record := fun hother hid =>
        latest_injective (mem_of_mem_resolved hother).1 hrecord hid
      have hgate := @unchanged_iff .releases st (latest messages) record hrecord
      by_cases hsame : HashUnchanged .releases record.dataId record.sha256 st
      · have hunchanged := hgate.2 hsame
        -- no other record of the batch has its id
        have hspared : ∀ record' nativeId', (record', nativeId') ∈ resolved rt .releases
            (latest messages) → unchanged ((Statement.selectExisting .releases
              ((latest messages).map (·.dataId))).read st) record' = false →
            record'.dataId ≠ record.dataId := by
          intro record' nativeId' hmem hchanged hid
          rw [hunique hmem hid, hunchanged] at hchanged
          cases hchanged
        have hforeign : ∀ incoming ∈ recordsToUpsert rt ((Statement.selectExisting .releases
            ((latest messages).map (·.dataId))).read st) (resolved rt .releases (latest messages)) .releases,
            incoming.dataId ≠ record.dataId := by
          intro incoming hincoming
          obtain ⟨record', nativeId', _, hmem, hchanged, -, rfl⟩ := mem_recordsToUpsert.1 hincoming
          exact hspared record' nativeId' hmem hchanged
        cases hrow : (st.entities .releases).lookup record.dataId with
        | none =>
          -- no row and a null hash: there is nothing to agree on, before or after
          have hnone := absent_writeChanged hforeign (absent_refreshUnchanged hrow hrefresh) hwrite
          refine iff_of_true (fun row hstored => ?_) fun row hstored => ?_
          · rw [hnone] at hstored
            cases hstored
          · rw [hrow] at hstored
            cases hstored
        | some row =>
          have hhash : record.sha256 = .str row.hash := by
            rw [HashUnchanged, Store.hash, hrow] at hsame
            exact sameHash_some.1 hsame
          have hkept := hasMedia_refreshUnchanged hrecord ⟨nativeId, hresolved⟩ hunchanged hrow hrefresh
          obtain ⟨row', hrow', hmedia⟩ := hasMedia_writeChanged
            (fun incoming hincoming hid => absurd hid (hforeign incoming hincoming)) hwrite fun _ => hkept
          refine mediaAgrees_of_left hrow hhash hrow' hmedia fun edge hnames => ?_
          rw [edges_of_spares (spares_writeChanged fun _ => hspared) hnames hwrite]
          exact edges_of_spares (spares_refreshUnchanged _ _) hnames hrefresh
      · have hchanged : unchanged ((Statement.selectExisting .releases
            ((latest messages).map (·.dataId))).read st) record = false := by
          rw [← Bool.not_eq_true]
          exact fun htrue => hsame (hgate.1 htrue)
        obtain ⟨hash, hhash⟩ := rowHash_of_changed (serial_writeChanged_eq_ok hwrite).1 hresolved hchanged
        obtain ⟨held, hwritten⟩ := Guarded.serial_of_held
          (G := documentGuard rt .releases record.dataId) gateAgrees_self
          (Finset.mem_singleton_self _) (written_writeChanged hresolved hchanged) hwrite
        have hincoming := mem_recordsToUpsert (t := .releases).2
          ⟨record, nativeId, hash, hresolved, hchanged, hhash, rfl⟩
        have hids := List.mem_map_of_mem (f := fun incoming : Incoming => incoming.dataId) hincoming
        obtain ⟨row', hrow', hmedia⟩ := hasMedia_writeChanged (fun incoming hother hid => by
          obtain ⟨record', nativeId', _, hmem, _, _, rfl⟩ := mem_recordsToUpsert.1 hother
          rw [recordParameters_media, hunique hmem hid, mediaColumn, if_pos rfl]) hwrite
          fun hfree => absurd hids hfree
        exact mediaAgrees_of_written hwritten hrow' hmedia hsame

end

/-- For every state of the store and every write of a release that commits, by either path: the
    `issued_on` rows of the release are those of its stored media column exactly if the payload
    was not stored yet, or the rows were already those of the column the write leaves. -/
theorem media_agrees_iff (rt : Runtime) (st : Store) :
    (∀ now dataId data outcome st',
      (persistRecord rt now .releases dataId data).serial engine.alone st = .ok (outcome, st') →
      (MediaAgrees rt dataId st' ↔ MediaPrepared rt dataId (contentHash data) data st)) ∧
    ∀ now messages result st',
      (processBatch rt now .releases messages).serial engine.alone st = .ok (result, st') →
      ∀ record ∈ latest messages, (MediaAgrees rt record.dataId st' ↔
        MediaPrepared rt record.dataId record.sha256 record.data st) :=
  ⟨fun _ _ _ _ _ h => persistRecord_mediaAgrees h,
    fun _ _ _ _ h _ hrecord => processBatch_mediaAgrees h hrecord⟩

/-! ## A row without media -/

/-- A release whose payload carries its media block. -/
def vinylDocument : Document :=
  [("id", .str "7"), ("sha256", .str "b"), ("media", .obj [("items", .arr
    [.obj [("medium", .str "lp"), ("family", .str "vinyl"), ("qty", .int 2)]])])]

def vinylRow : EntityRow := ⟨"b", .obj vinylDocument, none, none, 1⟩

/-- The release as a loader without the media column left it. -/
def mediaNullStore : Store where
  entities t := if t = .releases then Table.empty.insert "7" vinylRow else Table.empty
  vertices _ := ∅
  edges _ := ∅
  aliases _ := none

theorem mediaNullStore_unprepared :
    ¬MediaPrepared concreteRuntime "7" (.str "b") vinylDocument mediaNullStore := by
  intro h
  have hissued := h vinylRow rfl rfl
    ⟨[.text "7", .text "lp", .text "discogs", .bigint 2], rfl⟩
  have hnone := hissued.2 (by decide +kernel)
  exact absurd hnone.1 (Finset.notMem_empty _)

theorem exists_of_isOk {ε α β : Type} (result : Except ε (α × β)) (h : result.isOk = true) :
    ∃ a b, result = .ok (a, b) := by
  cases result with
  | error e => cases h
  | ok pair => exact ⟨pair.1, pair.2, rfl⟩

/-- The redelivery fills the column in and writes no edge, on either path. -/
theorem media_backfill_leaves_edges :
    (∃ outcome st', (persistRecord concreteRuntime 2 .releases "7" vinylDocument).serial engine.alone
        mediaNullStore = .ok (outcome, st') ∧ ¬MediaAgrees concreteRuntime "7" st') ∧
    ∃ result st', (processBatch concreteRuntime 2 .releases [⟨"7", vinylDocument, .str "b"⟩]).serial
        engine.alone mediaNullStore = .ok (result, st') ∧ ¬MediaAgrees concreteRuntime "7" st' := by
  constructor
  · obtain ⟨outcome, st', hserial⟩ := exists_of_isOk (
      (persistRecord concreteRuntime 2 .releases "7" vinylDocument).serial engine.alone mediaNullStore)
      (by decide +kernel)
    refine ⟨outcome, st', hserial, ?_⟩
    rw [persistRecord_mediaAgrees hserial]
    exact mediaNullStore_unprepared
  · obtain ⟨result, st', hserial⟩ := exists_of_isOk (
      (processBatch concreteRuntime 2 .releases [⟨"7", vinylDocument, .str "b"⟩]).serial engine.alone
        mediaNullStore) (by decide +kernel)
    refine ⟨result, st', hserial, ?_⟩
    have hrecord : (⟨"7", vinylDocument, .str "b"⟩ : BatchRecord) ∈ latest [⟨"7", vinylDocument, .str "b"⟩] :=
      List.mem_singleton.2 rfl
    have hagrees := processBatch_mediaAgrees hserial hrecord
    exact fun h => mediaNullStore_unprepared (hagrees.1 h)

end Tableinator
