import Tableinator.Store.MediaColumn
import Tableinator.Store.Replacement

/-! # The batch path and the single-record path

The batch decides on one `SELECT` and writes sets of rows, the single-record path
decides row by row.  Both are described by what they leave behind: `Leaves` says it
for a list of messages, component by component, and either path is shown to leave the
store so. -/

namespace Tableinator

open Effect Relational Tableinator.Graph

variable {rt : Runtime} {t t' : DataType} {st st' : Store}

/-! ## The aliases of a set of payloads -/

theorem lookup_append_single {κ β : Type} [BEq κ] [LawfulBEq κ] [DecidableEq κ]
    (rows : List (κ × β)) (key k : κ) (b : β) :
    (rows ++ [(key, b)]).lookup k = (rows.lookup k).or (if k = key then some b else none) := by
  induction rows with
  | nil =>
    by_cases hk : k = key
    · simp [hk]
    · have hne : (k == key) = false := by simpa using hk
      simp [List.lookup_cons, hne, hk]
  | cons row rows ih =>
    obtain ⟨key', b'⟩ := row
    by_cases hk : k = key'
    · simp [hk]
    · have hne : (k == key') = false := by simpa using hk
      simp [List.lookup_cons, hne, ih]

/-- `setdefault` keeps the target a ref has. -/
theorem lookup_setdefault (refs : List AliasRef) (nativeId : NativeId)
    (targets : List (AliasRef × NativeId)) (ref : AliasRef) :
    (refs.foldl (fun targets ref => if (targets.lookup ref).isSome then targets
      else targets ++ [(ref, nativeId)]) targets).lookup ref =
      (targets.lookup ref).or (if ref ∈ refs then some nativeId else none) := by
  induction refs generalizing targets with
  | nil => simp
  | cons head refs ih =>
    rw [List.foldl_cons, ih]
    cases hhead : targets.lookup head with
    | some other =>
      rw [if_pos (by simp)]
      by_cases href : ref = head
      · simp [href, hhead]
      · simp [href]
    | none =>
      rw [if_neg (by simp), lookup_append_single, Option.or_assoc]
      by_cases href : ref = head
      · simp [href]
      · simp [href]

/-- The first record that mints the ref says which item it belongs to. -/
def minted (rt : Runtime) (t : DataType) (records : List BatchRecord) (ref : AliasRef) : Option NativeId :=
  if t = .releases then
    records.findSome? fun record => if ref ∈ (aliasRefs rt record.data).getD [] then
      rt.resolveAlias (aliasRef t record.dataId) else none
  else none

/-- The record has a native id, and its identifiers block is well formed. -/
structure Identifiable (rt : Runtime) (t : DataType) (record : BatchRecord) : Prop where
  resolved : (rt.resolveAlias (aliasRef t record.dataId)).isSome = true
  wellFormed : t = .releases → (aliasRefs rt record.data).isSome = true

/-- Neither path refuses the record, whatever is stored: PostgreSQL takes its row, too. -/
structure Accepts (rt : Runtime) (t : DataType) (record : BatchRecord) : Prop
    extends Identifiable rt t record where
  taken : (record.rowHash rt t).isSome = true

/-- The batch does not refuse the record where this hash is stored: it sends the payload only
    if that changed. -/
structure Admits (rt : Runtime) (t : DataType) (stored : Option String) (record : BatchRecord) : Prop
    extends Identifiable rt t record where
  taken : sameHash stored record.sha256 = false → (record.rowHash rt t).isSome = true

theorem Accepts.admits {record : BatchRecord} (h : Accepts rt t record) (stored : Option String) :
    Admits rt t stored record := ⟨h.toIdentifiable, fun _ => h.taken⟩

/-- The hash of an accepted record is text. -/
theorem Accepts.text {record : BatchRecord} (h : Accepts rt t record) :
    ∃ hash, record.sha256 = .str hash ∧ record.rowHash rt t = some hash := by
  obtain ⟨hash, hhash⟩ := Option.isSome_iff_exists.1 h.taken
  exact ⟨hash, (rowHash_eq_some.1 hhash).2, hhash⟩

/-- The hash of an admitted record is text, unless there is none. -/
theorem Admits.text {stored : Option String} {record : BatchRecord} (h : Admits rt t stored record)
    (hnull : record.sha256 ≠ .null) : ∃ hash, record.sha256 = .str hash := by
  cases hsame : sameHash stored record.sha256 with
  | true =>
    cases stored with
    | none => exact absurd (sameHash_none.1 hsame) hnull
    | some hash => exact ⟨hash, sameHash_some.1 hsame⟩
  | false =>
    obtain ⟨hash, hhash⟩ := Option.isSome_iff_exists.1 (h.taken hsame)
    exact ⟨hash, (rowHash_eq_some.1 hhash).2⟩

section

variable {record : BatchRecord} {records : List BatchRecord}

theorem resolved_cons {nativeId : NativeId}
    (hnative : rt.resolveAlias (aliasRef t record.dataId) = some nativeId) :
    resolved rt t (record :: records) = (record, nativeId) :: resolved rt t records := by
  simp [resolved, hnative]

/-- `alias_targets` of the records answers, for each ref, what they mint. -/
theorem aliasTargets_resolved (hidentifiable : ∀ record ∈ records, Identifiable rt t record) :
    ∃ targets, aliasTargets rt t ((resolved rt t records).map fun (record, nativeId) =>
        (record.data, nativeId)) = some targets ∧
      ∀ ref, targets.lookup ref = minted rt t records ref := by
  by_cases ht : t = .releases
  · subst ht
    have hloop : ∀ (records : List BatchRecord) (targets : List (AliasRef × NativeId)),
        (∀ record ∈ records, Identifiable rt .releases record) →
        ∃ targets', ((resolved rt .releases records).map fun (record, nativeId) =>
            (record.data, nativeId)).foldlM (fun targets payload => do
              let refs ← aliasRefs rt payload.1
              return refs.foldl (fun targets ref => if (targets.lookup ref).isSome then targets
                else targets ++ [(ref, payload.2)]) targets) targets = some targets' ∧
          ∀ ref, targets'.lookup ref = (targets.lookup ref).or (minted rt .releases records ref) := by
      intro records
      induction records with
      | nil => exact fun targets _ => ⟨targets, rfl, fun ref => by simp [minted]⟩
      | cons record records ih =>
        intro targets hidentifiable
        obtain ⟨hresolved, hwellFormed⟩ := hidentifiable record List.mem_cons_self
        obtain ⟨nativeId, hnative⟩ := Option.isSome_iff_exists.1 hresolved
        obtain ⟨refs, hrefs⟩ := Option.isSome_iff_exists.1 (hwellFormed rfl)
        obtain ⟨targets', hfold, hlookup⟩ := ih (refs.foldl (fun targets ref =>
          if (targets.lookup ref).isSome then targets else targets ++ [(ref, nativeId)]) targets)
          fun record hrecord => hidentifiable record (List.mem_cons_of_mem _ hrecord)
        refine ⟨targets', ?_, fun ref => ?_⟩
        · rw [resolved_cons hnative, List.map_cons, List.foldlM_cons]
          simpa [hrefs] using hfold
        · rw [hlookup, lookup_setdefault, Option.or_assoc]
          by_cases href : ref ∈ refs
          · simp [minted, hrefs, href, hnative]
          · simp [minted, hrefs, href]
    obtain ⟨targets, hfold, hlookup⟩ := hloop records [] hidentifiable
    refine ⟨targets, ?_, fun ref => by rw [hlookup]; rfl⟩
    rw [aliasTargets, if_pos rfl]
    exact hfold
  · refine ⟨[], by rw [aliasTargets, if_neg ht], fun ref => ?_⟩
    rw [minted, if_neg ht]
    rfl

theorem minted_append (first rest : List BatchRecord) (ref : AliasRef) :
    minted rt t (first ++ rest) ref = (minted rt t first ref).or (minted rt t rest ref) := by
  by_cases ht : t = .releases
  · simp only [minted, if_pos ht, List.findSome?_append]
  · simp [minted, ht]

end

/-! ## What a path leaves behind -/

/-- An entity row without its `updated_at`. -/
structure Content where
  hash : String
  data : Json
  media : Option Json
  gmItemId : Option NativeId

def EntityRow.content (row : EntityRow) : Content := ⟨row.hash, row.data, row.media, row.gmItemId⟩

def Store.content (st : Store) (t : DataType) (dataId : String) : Option Content :=
  ((st.entities t).lookup dataId).map EntityRow.content

/-- The same rows, but for when they were written. -/
structure Store.Same (a b : Store) : Prop where
  content : ∀ t dataId, a.content t dataId = b.content t dataId
  vertices : ∀ v, a.vertices v = b.vertices v
  edges : ∀ r, a.edges r = b.edges r
  aliases : ∀ ref, a.aliases ref = b.aliases ref

/-- A stored row holds the native id its Discogs id resolves to, or none. -/
def Identified (rt : Runtime) (t : DataType) (st : Store) : Prop :=
  ∀ dataId row nativeId, st.content t dataId = some row → row.gmItemId = some nativeId →
    rt.resolveAlias (aliasRef t dataId) = some nativeId

section

variable (rt : Runtime) (t : DataType)

/-- The row a record leaves where it met `prior`; a null hash is no change where there is none. -/
def accepted (record : BatchRecord) (prior : Option Content) : Option Content :=
  let nativeId := rt.resolveAlias (aliasRef t record.dataId)
  if sameHash (prior.map Content.hash) record.sha256 then
    prior.map fun row => { row with
      media := if t = .releases then row.media.or (mediaColumn rt t record.data) else row.media
      gmItemId := row.gmItemId.or nativeId }
  else record.sha256.str?.map fun hash => ⟨hash, .obj record.data,
    if t = .releases then mediaColumn rt t record.data else prior.bind Content.media, nativeId⟩

/-- The documents whose payload is not stored yet. -/
def newDocuments (st : Store) (records : List BatchRecord) : List (String × Document) :=
  (records.filter fun record => ¬HashUnchanged t record.dataId record.sha256 st).map fun record =>
    (record.dataId, record.data)

structure Leaves (st : Store) (records : List BatchRecord) (st' : Store) : Prop where
  others : ∀ t' dataId, t' ≠ t → st'.content t' dataId = st.content t' dataId
  unwritten : ∀ dataId, dataId ∉ records.map (·.dataId) → st'.content t dataId = st.content t dataId
  written : ∀ record ∈ records,
    st'.content t record.dataId = accepted rt t record (st.content t record.dataId)
  vertices : st'.vertices = withVertices rt t (newDocuments t st records) st.vertices
  edges : st'.edges = withEdges rt t (newDocuments t st records) st.edges
  aliases : ∀ ref, st'.aliases ref = (st.aliases ref).or (minted rt t records ref)

end

section

variable {record : BatchRecord} {records : List BatchRecord} {mid : Store}

theorem Leaves.same {a b : Store} (ha : Leaves rt t st records a) (hb : Leaves rt t st records b) :
    a.Same b where
  content t' dataId := by
    by_cases ht : t' = t
    · subst ht
      by_cases hid : dataId ∈ records.map (·.dataId)
      · obtain ⟨record, hrecord, rfl⟩ := List.mem_map.1 hid
        rw [ha.written record hrecord, hb.written record hrecord]
      · rw [ha.unwritten dataId hid, hb.unwritten dataId hid]
    · rw [ha.others t' dataId ht, hb.others t' dataId ht]
  vertices v := by rw [ha.vertices, hb.vertices]
  edges r := by rw [ha.edges, hb.edges]
  aliases ref := by rw [ha.aliases, hb.aliases]

theorem Leaves.nil : Leaves rt t st [] st where
  others _ _ _ := rfl
  unwritten _ _ := rfl
  written _ h := absurd h List.not_mem_nil
  vertices := rfl
  edges := (withEdges_nil st.edges).symm
  aliases ref := by simp [minted]

theorem hash_content (st : Store) (t : DataType) (dataId : String) :
    (st.content t dataId).map Content.hash = st.hash t dataId := by
  rw [Store.hash, Store.content, Option.map_map]
  rfl

theorem newDocuments_congr (h : ∀ record ∈ records,
    st'.content t record.dataId = st.content t record.dataId) :
    newDocuments t st' records = newDocuments t st records := by
  rw [newDocuments, newDocuments]
  congr 1
  refine List.filter_congr fun record hrecord => ?_
  rw [decide_eq_decide, HashUnchanged, HashUnchanged, ← hash_content, ← hash_content, h record hrecord]

theorem newDocuments_append (first rest : List BatchRecord) :
    newDocuments t st (first ++ rest) = newDocuments t st first ++ newDocuments t st rest := by
  rw [newDocuments, List.filter_append, List.map_append, ← newDocuments, ← newDocuments]

theorem mem_of_mem_newDocuments {document : String × Document}
    (h : document ∈ newDocuments t st records) :
    ∃ record ∈ records, document = (record.dataId, record.data) := by
  obtain ⟨record, hmem, rfl⟩ := List.mem_map.1 h
  exact ⟨record, (List.mem_filter.1 hmem).1, rfl⟩

/-- Some records, then the others: they meet the store the first ones left. -/
theorem Leaves.append {first rest : List BatchRecord}
    (hids : ((first ++ rest).map (·.dataId)).Nodup) (hfirst : Leaves rt t st first mid)
    (hrest : Leaves rt t mid rest st') : Leaves rt t st (first ++ rest) st' := by
  have hdisjoint : ∀ record ∈ first, record.dataId ∉ rest.map (·.dataId) := by
    intro record hrecord
    rw [List.map_append, List.nodup_append'] at hids
    exact hids.2.2 (List.mem_map_of_mem (f := (·.dataId)) hrecord)
  have hmet : ∀ other ∈ rest, mid.content t other.dataId = st.content t other.dataId := by
    intro other hother
    refine hfirst.unwritten other.dataId fun hmem => ?_
    obtain ⟨record, hrecord, hid⟩ := List.mem_map.1 hmem
    exact hdisjoint record hrecord (hid ▸ List.mem_map_of_mem (f := (·.dataId)) hother)
  have hnew : newDocuments t st (first ++ rest) = newDocuments t st first ++ newDocuments t mid rest := by
    rw [newDocuments_append, newDocuments_congr hmet]
  have hfresh : ∀ document ∈ newDocuments t st first,
      document.1 ∉ (newDocuments t mid rest).map Prod.fst := by
    intro document hdocument hmem
    obtain ⟨record, hrecord, rfl⟩ := mem_of_mem_newDocuments hdocument
    obtain ⟨other, hother, hid⟩ := List.mem_map.1 hmem
    obtain ⟨record', hrecord', rfl⟩ := mem_of_mem_newDocuments hother
    exact hdisjoint record hrecord (List.mem_map.2 ⟨record', hrecord', hid⟩)
  constructor
  case others =>
    intro t' dataId ht
    rw [hrest.others t' dataId ht, hfirst.others t' dataId ht]
  case unwritten =>
    intro dataId hmem
    rw [List.map_append, List.mem_append, not_or] at hmem
    rw [hrest.unwritten dataId hmem.2, hfirst.unwritten dataId hmem.1]
  case written =>
    intro record hrecord
    rcases List.mem_append.1 hrecord with hrecord | hrecord
    · rw [hrest.unwritten record.dataId (hdisjoint record hrecord)]
      exact hfirst.written record hrecord
    · rw [hrest.written record hrecord, hmet record hrecord]
  case vertices => rw [hrest.vertices, hfirst.vertices, hnew, withVertices_append]
  case edges => rw [hrest.edges, hfirst.edges, hnew, withEdges_append hfresh]
  case aliases =>
    intro ref
    rw [hrest.aliases, hfirst.aliases, Option.or_assoc, ← minted_append]

end

/-! ## One record -/

section

variable {record : BatchRecord} {now : Time}

theorem serial_unlessEmpty_ok {β : Type} (rows : List β) (op : Statement PUnit) (st : Store)
    (hempty : rows = [] → (engine.alone op st).2 = st) :
    (unlessEmpty rows op).serial engine.alone st = .ok (⟨⟩, (engine.alone op st).2) := by
  unfold unlessEmpty
  split
  · next hrows => rw [hempty (by simpa using hrows), Program.serial_pure]
  · rfl

theorem alone_attachAliases (targets : List (AliasRef × NativeId)) (st : Store) :
    (engine.alone (.attachAliases targets) st).2 =
      { st with aliases := fun ref => (st.aliases ref).or (targets.lookup ref) } := rfl

theorem serial_attachAliasTargets (targets : List (AliasRef × NativeId)) :
    (attachAliasTargets targets).serial engine.alone st =
      .ok (⟨⟩, { st with aliases := fun ref => (st.aliases ref).or (targets.lookup ref) }) := by
  rw [← alone_attachAliases]
  refine serial_unlessEmpty_ok targets _ st fun hempty => ?_
  rw [alone_attachAliases, hempty]
  simp

theorem content_entities_apply (ids : List String) (f : String → Option EntityRow → Option EntityRow)
    (dataId : String) : ((Change.entities t ids f).apply st).content t' dataId =
      if t' = t ∧ dataId ∈ ids then (f dataId ((st.entities t').lookup dataId)).map EntityRow.content
      else st.content t' dataId := by
  rw [Store.content, lookup_entities_apply]
  split <;> rfl

/-- The single-record upsert leaves the accepted row. -/
theorem content_revise {nativeId : NativeId} {hash : String}
    (hnative : rt.resolveAlias (aliasRef t record.dataId) = some nativeId)
    (hhash : record.sha256 = .str hash) {row : Option EntityRow}
    (hidentified : ∀ stored other, row = some stored → stored.gmItemId = some other → other = nativeId) :
    some ((recordParameters rt t hash record.dataId record.data nativeId).revise t now row).content =
      accepted rt t record (row.map EntityRow.content) := by
  cases row with
  | none =>
    rcases eq_or_ne t .releases with rfl | ht
    · simp [Incoming.revise, Incoming.insertedRow, accepted, EntityRow.content, mediaColumn, Json.str?,
        hnative, hhash]
    · simp [Incoming.revise, Incoming.insertedRow, accepted, EntityRow.content, mediaColumn, Json.str?,
        hnative, hhash, ht]
  | some row =>
    by_cases hsame : row.hash = hash
    · have hnativeId : row.gmItemId.getD nativeId = nativeId := by
        cases hstored : row.gmItemId with
        | none => rfl
        | some other => exact hidentified row other rfl hstored
      rcases eq_or_ne t .releases with rfl | ht
      · cases hmedia : row.media <;>
          simp [Incoming.revise, accepted, EntityRow.content, hnative, hnativeId, hhash, hsame, hmedia]
      · simp [Incoming.revise, accepted, EntityRow.content, hnative, hnativeId, hhash, hsame, ht]
    · rcases eq_or_ne t .releases with rfl | ht
      · simp [Incoming.revise, accepted, EntityRow.content, Json.str?, hnative, hhash, hsame]
      · simp [Incoming.revise, accepted, EntityRow.content, Json.str?, hnative, hhash, hsame, ht]

/-- `persist_record` of an accepted record commits: its upsert, its aliases, and its rows
    unless the gate found the payload stored. -/
theorem serial_persistRecord (haccepts : Accepts rt t record)
    (hsha256 : record.sha256 = contentHash record.data) :
    ∃ nativeId hash outcome, rt.resolveAlias (aliasRef t record.dataId) = some nativeId ∧
      record.sha256 = .str hash ∧
      (persistRecord rt now t record.dataId record.data).serial engine.alone st = .ok (outcome,
        { (engine.alone (.upsertRecord t now
            (recordParameters rt t hash record.dataId record.data nativeId)) st).2 with
          vertices := withVertices rt t (newDocuments t st [record]) st.vertices
          edges := withEdges rt t (newDocuments t st [record]) st.edges
          aliases := fun ref => (st.aliases ref).or (minted rt t [record] ref) }) := by
  obtain ⟨nativeId, hnative⟩ := Option.isSome_iff_exists.1 haccepts.resolved
  obtain ⟨hash, htext, hrowHash⟩ := haccepts.text
  have hrowHash : rowHash rt t record.dataId record.data (contentHash record.data) = some hash := by
    rw [← hsha256]
    exact hrowHash
  obtain ⟨targets, htargets, hlookup⟩ := @aliasTargets_resolved rt t [record]
    fun other hother => List.mem_singleton.1 hother ▸ haccepts.toIdentifiable
  have hpayloads : aliasTargets rt t [(record.data, nativeId)] = some targets := by
    rw [← htargets, resolved_cons hnative]
    rfl
  obtain ⟨incoming, hincoming⟩ : ∃ incoming,
      recordParameters rt t hash record.dataId record.data nativeId = incoming := ⟨_, rfl⟩
  have hgate : contentChanged ((Statement.upsertRecord t now incoming).read st) = false ↔
      HashUnchanged t record.dataId record.sha256 st := by
    rw [contentChanged_eq_false_iff, htext, hashUnchanged_str, ← hincoming]
    rfl
  have hupsert : (Program.await (Statement.upsertRecord t now incoming) :
      Transaction (Option Prior)).serial engine.alone st =
        .ok ((Statement.upsertRecord t now incoming).read st,
          (engine.alone (.upsertRecord t now incoming) st).2) := rfl
  have hids : ([(record.dataId, record.data)].map Prod.fst).Nodup := List.nodup_singleton _
  refine ⟨nativeId, hash, ?_⟩
  simp only [persistRecord, hnative, hrowHash, hincoming, Program.serial_bind, hupsert, hpayloads,
    serial_attachAliasTargets, hlookup]
  by_cases hsame : HashUnchanged t record.dataId record.sha256 st
  · have hnew : newDocuments t st [record] = [] := by simp [newDocuments, hsame]
    rw [hgate.2 hsame, hnew, withVertices_nil, withEdges_nil]
    exact ⟨_, trivial, htext, rfl⟩
  · have hnew : newDocuments t st [record] = [(record.dataId, record.data)] := by
      simp [newDocuments, hsame]
    have hloud : contentChanged ((Statement.upsertRecord t now incoming).read st) = true := by
      rw [← Bool.not_eq_false, hgate]
      exact hsame
    rw [hloud, hnew]
    simp only [if_true, Program.serial_bind, serial_writeDocumentGraph hids]
    exact ⟨_, trivial, htext, rfl⟩

theorem persistRecord_leaves (haccepts : Accepts rt t record) (hidentified : Identified rt t st)
    (hsha256 : record.sha256 = contentHash record.data) :
    ∃ outcome st', (persistRecord rt now t record.dataId record.data).serial engine.alone st =
      .ok (outcome, st') ∧ Leaves rt t st [record] st' := by
  obtain ⟨nativeId, hash, outcome, hnative, htext, hserial⟩ :=
    @serial_persistRecord rt t st record now haccepts hsha256
  refine ⟨outcome, _, hserial, ?_⟩
  generalize hincoming : recordParameters rt t hash record.dataId record.data nativeId = incoming
  let upserted := (engine.alone (.upsertRecord t now incoming) st).2
  have hcontent : ∀ t' dataId, upserted.content t' dataId = if t' = t ∧ dataId = record.dataId then
      accepted rt t record (st.content t record.dataId) else st.content t' dataId := by
    intro t' dataId
    have hrevised := @content_revise rt t record now nativeId hash hnative htext
      ((st.entities t).lookup record.dataId) fun stored other hstored hother => by
        have hresolved := hidentified record.dataId stored.content other
          (by rw [Store.content, hstored, Option.map_some]) hother
        exact Option.some.inj (hresolved.symm.trans hnative)
    have hid : incoming.dataId = record.dataId := by rw [← hincoming, recordParameters]
    show ((Change.entities t [incoming.dataId] fun _ row => some (incoming.revise t now row)).apply
      st).content t' dataId = _
    rw [hid, content_entities_apply]
    by_cases hmine : t' = t ∧ dataId = record.dataId
    · rw [if_pos (by simpa using hmine), if_pos hmine, hmine.1, hmine.2, Option.map_some, ← hincoming,
        hrevised]
      rfl
    · rw [if_neg (by simpa using hmine), if_neg hmine]
  constructor
  case others =>
    intro t' dataId ht
    exact (hcontent t' dataId).trans (if_neg fun hmine => ht hmine.1)
  case unwritten =>
    intro dataId hmem
    exact (hcontent t dataId).trans (if_neg fun hmine => hmem (by simp [hmine.2]))
  case written =>
    intro other hother
    obtain rfl := List.mem_singleton.1 hother
    exact (hcontent t other.dataId).trans (if_pos ⟨rfl, rfl⟩)
  case vertices => rfl
  case edges => rfl
  case aliases => exact fun ref => rfl

end

/-! ## One batch -/

theorem lookup_eq_some_of_unique {κ β : Type} [BEq κ] [LawfulBEq κ] {rows : List (κ × β)} {k : κ} {b : β}
    (hmem : (k, b) ∈ rows) (hunique : ∀ b', (k, b') ∈ rows → b' = b) : rows.lookup k = some b := by
  cases hlookup : rows.lookup k with
  | none =>
    have hne := List.lookup_eq_none_iff.1 hlookup _ hmem
    simp at hne
  | some b' => rw [hunique b' (mem_of_lookup hlookup)]

theorem lookup_eq_none_of_forall {κ β : Type} [BEq κ] [LawfulBEq κ] {rows : List (κ × β)} {k : κ}
    (h : ∀ b, (k, b) ∉ rows) : rows.lookup k = none := by
  cases hlookup : rows.lookup k with
  | none => rfl
  | some b => exact absurd (mem_of_lookup hlookup) (h b)

section

variable {messages records : List BatchRecord} {record : BatchRecord} {existing : List Existing}
variable {now : Time} {dataId : String} {nativeId : NativeId}

theorem putRecord_of_fresh (hfresh : record.dataId ∉ records.map (·.dataId)) :
    putRecord record records = records ++ [record] := by
  induction records with
  | nil => rfl
  | cons head records ih =>
    rw [List.map_cons, List.mem_cons, not_or] at hfresh
    rw [putRecord, if_neg (Ne.symm hfresh.1), ih hfresh.2, List.cons_append]

/-- Distinct ids are all kept, in their order. -/
theorem latest_of_nodup (hids : (messages.map (·.dataId)).Nodup) : latest messages = messages := by
  have hloop : ∀ (messages records : List BatchRecord), ((records ++ messages).map (·.dataId)).Nodup →
      messages.foldl (fun records record => putRecord record records) records = records ++ messages := by
    intro messages
    induction messages with
    | nil => exact fun records _ => (List.append_nil records).symm
    | cons record messages ih =>
      intro records hnodup
      have hfresh : record.dataId ∉ records.map (·.dataId) := by
        rw [List.map_append, List.nodup_append'] at hnodup
        exact fun hmem => hnodup.2.2 hmem (by simp)
      rw [List.foldl_cons, putRecord_of_fresh hfresh, ih, List.append_assoc]
      · rfl
      · rwa [List.append_assoc]
  exact hloop messages [] hids

theorem mem_identityBackfills :
    (dataId, nativeId) ∈ identityBackfills existing (resolved rt t records) ↔
      ∃ record, (record, nativeId) ∈ resolved rt t records ∧ unchanged existing record = true ∧
        (existing.find? (·.dataId = record.dataId)).any (·.identityIsNull) = true ∧
        record.dataId = dataId := by
  simp only [identityBackfills, unchangedRecords, List.mem_map, List.mem_filter, Prod.exists,
    Prod.mk.injEq]
  constructor
  · rintro ⟨record, other, ⟨⟨hmem, hunchanged⟩, hnull⟩, hid, rfl⟩
    exact ⟨record, hmem, hunchanged, hnull, hid⟩
  · rintro ⟨record, hmem, hunchanged, hnull, hid⟩
    exact ⟨record, nativeId, ⟨⟨hmem, hunchanged⟩, hnull⟩, hid, rfl⟩

/-! ### The entity statements -/

/-- An `UPDATE` by id, as the rows it leaves. -/
theorem lookup_updated (ids : List String) (f : String → EntityRow → EntityRow) :
    (((Change.entities t (Statement.updated st ∅ t ids) fun dataId row => row.map (f dataId)).apply
      st).entities t').lookup dataId =
      if t' = t ∧ dataId ∈ ids then ((st.entities t').lookup dataId).map (f dataId)
      else (st.entities t').lookup dataId := by
  rw [lookup_entities_apply]
  by_cases ht : t' = t
  · subst ht
    cases hrow : (st.entities t').lookup dataId with
    | none => simp
    | some row => simp [Statement.updated, hrow]
  · rw [if_neg fun hmine => ht hmine.1, if_neg fun hmine => ht hmine.1]

theorem content_updated {ids : List String} {f : String → EntityRow → EntityRow} {g : Content → Content}
    (hg : ∀ row, (f dataId row).content = g row.content) :
    ((Change.entities t (Statement.updated st ∅ t ids) fun dataId row => row.map (f dataId)).apply
      st).content t' dataId =
      if t' = t ∧ dataId ∈ ids then (st.content t' dataId).map g else st.content t' dataId := by
  have hcontent : EntityRow.content ∘ f dataId = g ∘ EntityRow.content := funext hg
  rw [Store.content, lookup_updated]
  split
  · rw [Option.map_map, hcontent, ← Option.map_map]
    rfl
  · rfl

theorem apply_entities_nil (f : String → Option EntityRow → Option EntityRow) :
    (Change.entities t [] f).apply st = st := by
  have htable : (st.entities t).alter [] f = st.entities t :=
    Table.ext fun dataId => by simp [Table.lookup_alter]
  simp [Change.apply, htable]

theorem lookup_or {κ β : Type} [BEq κ] [LawfulBEq κ] {rows : List (κ × β)} {k : κ} (b : Option β) :
    (rows.lookup k).or b = if k ∈ rows.map Prod.fst then rows.lookup k else b := by
  by_cases hmem : k ∈ rows.map Prod.fst
  · rw [if_pos hmem]
    cases hlookup : rows.lookup k with
    | none =>
      obtain ⟨entry, hentry, rfl⟩ := List.mem_map.1 hmem
      have hne := List.lookup_eq_none_iff.1 hlookup _ hentry
      simp at hne
    | some b' => rfl
  · rw [if_neg hmem, lookup_eq_none_of_forall fun b' hb' => hmem (List.mem_map_of_mem (f := Prod.fst) hb'),
      Option.none_or]

/-- The unchanged rows, with their backfills. -/
theorem serial_refreshUnchanged {identified : List (BatchRecord × NativeId)} :
    ∃ st', (refreshUnchanged rt now t existing identified).serial engine.alone st = .ok (⟨⟩, st') ∧
      (∀ t' dataId, st'.content t' dataId = (st.content t' dataId).map fun row =>
        if t' = t then { row with
          media := ((mediaBackfills rt existing identified).lookup dataId).or row.media
          gmItemId := ((identityBackfills existing identified).lookup dataId).or row.gmItemId }
        else row) ∧
      st'.vertices = st.vertices ∧ st'.edges = st.edges ∧ st'.aliases = st.aliases := by
  let ids := refreshIds rt existing identified
  let media := mediaBackfills rt existing identified
  let identities := identityBackfills existing identified
  let refreshed := (engine.alone (.refresh t now ids) st).2
  let filled := (engine.alone (.backfillMedia t now media) refreshed).2
  let named := (engine.alone (.backfillIdentity t now identities) filled).2
  have hrefresh := serial_unlessEmpty_ok ids (.refresh t now ids) st
    fun hnone => by rw [hnone]; exact apply_entities_nil _
  have hmedia := serial_unlessEmpty_ok media (.backfillMedia t now media) refreshed
    fun hnone => by rw [hnone]; exact apply_entities_nil _
  have hidentity := serial_unlessEmpty_ok identities (.backfillIdentity t now identities) filled
    fun hnone => by rw [hnone]; exact apply_entities_nil _
  refine ⟨named, ?_, fun t' dataId => ?_, rfl, rfl, rfl⟩
  · simp only [refreshUnchanged, Program.serial_bind]
    rw [hrefresh]
    dsimp only
    rw [hmedia]
    exact hidentity
  · have hrefreshed : refreshed.content t' dataId = st.content t' dataId := by
      refine (content_updated (f := fun _ row => { row with updatedAt := now }) (g := id)
        fun _ => rfl).trans ?_
      simp
    have hfilled : filled.content t' dataId = (refreshed.content t' dataId).map fun row =>
        if t' = t then { row with media := (media.lookup dataId).or row.media } else row := by
      refine (content_updated (f := fun dataId row => { row with
        media := media.lookup dataId, updatedAt := now }) (g := fun row => { row with
          media := media.lookup dataId }) fun _ => rfl).trans ?_
      by_cases ht : t' = t
      · by_cases hid : dataId ∈ media.map Prod.fst <;> simp only [ht, lookup_or, hid] <;> simp
      · simp [ht]
    have hnamed : named.content t' dataId = (filled.content t' dataId).map fun row =>
        if t' = t then { row with gmItemId := (identities.lookup dataId).or row.gmItemId } else row := by
      refine (content_updated (f := fun dataId row => { row with
        gmItemId := identities.lookup dataId, updatedAt := now }) (g := fun row => { row with
          gmItemId := identities.lookup dataId }) fun _ => rfl).trans ?_
      by_cases ht : t' = t
      · by_cases hid : dataId ∈ identities.map Prod.fst <;> simp only [ht, lookup_or, hid] <;> simp
      · simp [ht]
    rw [hnamed, hfilled, hrefreshed, Option.map_map]
    by_cases ht : t' = t
    · simp [ht, media, identities, Function.comp_def]
    · simp [ht, Function.comp_def]

/-- The upsert of the changed rows. -/
theorem lookup_upsertRecords (rows : List Incoming) :
    ((((Statement.upsertRecords t now rows).change st ∅).apply st).entities t').lookup dataId =
      if t' = t then ((rows.find? (·.dataId = dataId)).map fun incoming =>
        incoming.overwrite t now ((st.entities t').lookup dataId)).or ((st.entities t').lookup dataId)
      else (st.entities t').lookup dataId := by
  rw [Statement.change, lookup_entities_apply]
  by_cases ht : t' = t
  · by_cases hid : dataId ∈ rows.map (·.dataId)
    · cases rows.find? (·.dataId = dataId) <;> simp [ht, hid]
    · have hnone : rows.find? (·.dataId = dataId) = none := by
        rw [List.find?_eq_none]
        intro incoming hincoming
        simp only [decide_eq_true_eq]
        exact fun hsame => hid (hsame ▸ List.mem_map_of_mem (f := (·.dataId)) hincoming)
      simp [ht, hid, hnone]
  · simp [ht]

/-- The rows written are those of the documents the gate lets through. -/
theorem serial_writeChanged {identified : List (BatchRecord × NativeId)}
    {targets : List (AliasRef × NativeId)}
    (hrefused : refusedRecords rt existing identified t = [])
    (hids : ((changedDocuments existing identified).map Prod.fst).Nodup) :
    ∃ st', (writeChanged rt now t existing identified targets).serial engine.alone st = .ok (⟨⟩, st') ∧
      (∀ t' dataId, (st'.entities t').lookup dataId =
        if t' = t then (((recordsToUpsert rt existing identified t).find? (·.dataId = dataId)).map
          fun incoming => incoming.overwrite t now ((st.entities t').lookup dataId)).or
            ((st.entities t').lookup dataId)
        else (st.entities t').lookup dataId) ∧
      st'.vertices = withVertices rt t (changedDocuments existing identified) st.vertices ∧
      st'.edges = withEdges rt t (changedDocuments existing identified) st.edges ∧
      ∀ ref, st'.aliases ref = (st.aliases ref).or (targets.lookup ref) := by
  let rows := recordsToUpsert rt existing identified t
  let upserted := (engine.alone (.upsertRecords t now rows) st).2
  have hupsert := serial_unlessEmpty_ok rows (.upsertRecords t now rows) st
    fun hnone => by rw [hnone]; exact apply_entities_nil _
  refine ⟨{ upserted with
    vertices := withVertices rt t (changedDocuments existing identified) st.vertices
    edges := withEdges rt t (changedDocuments existing identified) st.edges
    aliases := fun ref => (st.aliases ref).or (targets.lookup ref) }, ?_, ?_, rfl, rfl, fun _ => rfl⟩
  · simp only [writeChanged]
    rw [if_neg (not_not.2 hrefused)]
    simp only [Program.serial_bind]
    rw [hupsert]
    dsimp only
    rw [serial_attachAliasTargets]
    dsimp only
    rw [serial_writeDocumentGraph hids]
    rfl
  · intro t' dataId
    show ((((Statement.upsertRecords t now rows).change st ∅).apply st).entities t').lookup dataId = _
    exact lookup_upsertRecords rows

theorem changedDocuments_resolved (hidentifiable : ∀ record ∈ records, Identifiable rt t record) :
    changedDocuments existing (resolved rt t records) =
      (records.filter fun record => !unchanged existing record).map fun record =>
        (record.dataId, record.data) := by
  induction records with
  | nil => rfl
  | cons record records ih =>
    obtain ⟨nativeId, hnative⟩ := Option.isSome_iff_exists.1
      (hidentifiable record List.mem_cons_self).resolved
    have hrest := ih fun other hother => hidentifiable other (List.mem_cons_of_mem _ hother)
    rw [changedDocuments, changedRecords] at hrest ⊢
    rw [resolved_cons hnative, List.filter_cons, List.filter_cons]
    cases hgate : unchanged existing record with
    | true => simpa [hgate] using hrest
    | false => simpa [hgate] using hrest

theorem newDocuments_latest (hidentifiable : ∀ record ∈ latest messages, Identifiable rt t record) :
    changedDocuments ((Statement.selectExisting t ((latest messages).map (·.dataId))).read st)
      (resolved rt t (latest messages)) = newDocuments t st (latest messages) := by
  rw [changedDocuments_resolved hidentifiable, newDocuments]
  congr 1
  refine List.filter_congr fun record hrecord => ?_
  have hgate := @unchanged_iff t st (latest messages) record hrecord
  by_cases hsame : HashUnchanged t record.dataId record.sha256 st
  · simp [hgate.2 hsame, hsame]
  · have hchanged : unchanged ((Statement.selectExisting t ((latest messages).map (·.dataId))).read st)
        record = false := by
      rw [← Bool.not_eq_true]
      exact fun htrue => hsame (hgate.1 htrue)
    simp [hchanged, hsame]

/-! ### What the batch decided for one of its records -/

theorem backfilledMedia_of_resolved (hmem : (record, nativeId) ∈ resolved rt t (latest messages)) :
    (mediaBackfills rt existing (resolved rt t (latest messages))).lookup record.dataId =
      if unchanged existing record = true ∧
        (existing.find? (·.dataId = record.dataId)).any (·.mediaIsNull) = true
      then some (.obj (mediaForRelease rt record.data)) else none := by
  have hsame : ∀ {other nativeId'}, (other, nativeId') ∈ resolved rt t (latest messages) →
      other.dataId = record.dataId → other = record := fun hother hid =>
    latest_injective (mem_of_mem_resolved hother).1 (mem_of_mem_resolved hmem).1 hid
  split
  · next hnull =>
    refine lookup_eq_some_of_unique (mem_mediaBackfills.2 ⟨record, nativeId, hmem, hnull.1, hnull.2, rfl, rfl⟩)
      fun block hblock => ?_
    obtain ⟨other, _, hother, _, _, hid, rfl⟩ := mem_mediaBackfills.1 hblock
    rw [hsame hother hid]
  · next hfull =>
    refine lookup_eq_none_of_forall fun block hblock => hfull ?_
    obtain ⟨other, _, hother, hunchanged, hnull, hid, _⟩ := mem_mediaBackfills.1 hblock
    obtain rfl := hsame hother hid
    exact ⟨hunchanged, hnull⟩

theorem backfilledIdentity_of_resolved (hmem : (record, nativeId) ∈ resolved rt t (latest messages)) :
    (identityBackfills existing (resolved rt t (latest messages))).lookup record.dataId =
      if unchanged existing record = true ∧
        (existing.find? (·.dataId = record.dataId)).any (·.identityIsNull) = true
      then some nativeId else none := by
  have hnative := (mem_of_mem_resolved hmem).2
  split
  · next hnull =>
    refine lookup_eq_some_of_unique (mem_identityBackfills.2 ⟨record, hmem, hnull.1, hnull.2, rfl⟩)
      fun other hother => ?_
    obtain ⟨found, hfound, _, _, hid⟩ := mem_identityBackfills.1 hother
    have hresolved := (mem_of_mem_resolved hfound).2
    rw [hid, hnative] at hresolved
    exact (Option.some.inj hresolved).symm
  · next hfull =>
    refine lookup_eq_none_of_forall fun other hother => hfull ?_
    obtain ⟨found, hfound, hunchanged, hnull, hid⟩ := mem_identityBackfills.1 hother
    obtain rfl := latest_injective (mem_of_mem_resolved hfound).1 (mem_of_mem_resolved hmem).1 hid
    exact ⟨hunchanged, hnull⟩

theorem upserted_of_resolved (hmem : (record, nativeId) ∈ resolved rt t (latest messages)) :
    (recordsToUpsert rt existing (resolved rt t (latest messages)) t).find? (·.dataId = record.dataId) =
      if unchanged existing record = true then none
      else (record.rowHash rt t).map fun hash =>
        recordParameters rt t hash record.dataId record.data nativeId := by
  have hsame : ∀ {other nativeId'}, (other, nativeId') ∈ resolved rt t (latest messages) →
      other.dataId = record.dataId → other = record ∧ nativeId' = nativeId := by
    intro other nativeId' hother hid
    obtain rfl := latest_injective (mem_of_mem_resolved hother).1 (mem_of_mem_resolved hmem).1 hid
    have hresolved := (mem_of_mem_resolved hother).2
    rw [(mem_of_mem_resolved hmem).2] at hresolved
    exact ⟨rfl, (Option.some.inj hresolved).symm⟩
  have hmine : ∀ incoming ∈ recordsToUpsert rt existing (resolved rt t (latest messages)) t,
      incoming.dataId = record.dataId → unchanged existing record = false ∧
        (record.rowHash rt t).map (fun hash =>
          recordParameters rt t hash record.dataId record.data nativeId) = some incoming := by
    intro incoming hincoming hid
    obtain ⟨other, nativeId', hash, hother, hchanged, hhash, rfl⟩ := mem_recordsToUpsert.1 hincoming
    obtain ⟨rfl, rfl⟩ := hsame hother hid
    exact ⟨hchanged, by rw [hhash, Option.map_some]⟩
  cases hfound : (recordsToUpsert rt existing (resolved rt t (latest messages)) t).find?
      (·.dataId = record.dataId) with
  | none =>
    split
    · rfl
    · next hchanged =>
      cases hhash : record.rowHash rt t with
      | none => rfl
      | some hash =>
        have hincoming := mem_recordsToUpsert (t := t).2
          ⟨record, nativeId, hash, hmem, by simpa using hchanged, hhash, rfl⟩
        have hnot := List.find?_eq_none.1 hfound _ hincoming
        simp at hnot
  | some incoming =>
    have hid := List.find?_some hfound
    simp only [decide_eq_true_eq] at hid
    obtain ⟨hchanged, hrow⟩ := hmine incoming (List.mem_of_find?_eq_some hfound) hid
    rw [hchanged, if_neg Bool.false_ne_true, hrow]

theorem foreign_of_resolved (hid : dataId ∉ records.map (·.dataId))
    (hmem : (record, nativeId) ∈ resolved rt t records) : record.dataId ≠ dataId :=
  fun hsame => hid (hsame ▸ List.mem_map_of_mem (f := (·.dataId)) (mem_of_mem_resolved hmem).1)

theorem upserted_of_foreign (hid : dataId ∉ records.map (·.dataId)) :
    (recordsToUpsert rt existing (resolved rt t records) t).find? (·.dataId = dataId) = none := by
  rw [List.find?_eq_none]
  intro incoming hincoming
  obtain ⟨record, _, _, hmem, _, _, rfl⟩ := mem_recordsToUpsert.1 hincoming
  simp only [decide_eq_true_eq]
  exact foreign_of_resolved hid hmem

theorem backfilledMedia_of_foreign (hid : dataId ∉ records.map (·.dataId)) :
    (mediaBackfills rt existing (resolved rt t records)).lookup dataId = none := by
  refine lookup_eq_none_of_forall fun block hblock => ?_
  obtain ⟨record, _, hmem, _, _, hsame, _⟩ := mem_mediaBackfills.1 hblock
  exact foreign_of_resolved hid hmem hsame

theorem backfilledIdentity_of_foreign (hid : dataId ∉ records.map (·.dataId)) :
    (identityBackfills existing (resolved rt t records)).lookup dataId = none := by
  refine lookup_eq_none_of_forall fun nativeId hnamed => ?_
  obtain ⟨record, hmem, _, _, hsame⟩ := mem_identityBackfills.1 hnamed
  exact foreign_of_resolved hid hmem hsame

/-- The batch upsert leaves the accepted row of a changed record. -/
theorem content_overwrite {hash : String}
    (hnative : rt.resolveAlias (aliasRef t record.dataId) = some nativeId)
    (hhash : record.sha256 = .str hash) {row : Option EntityRow}
    (hchanged : ∀ kept, row = some kept → kept.hash ≠ hash) :
    some ((recordParameters rt t hash record.dataId record.data nativeId).overwrite t now row).content =
      accepted rt t record (row.map EntityRow.content) := by
  cases row with
  | none =>
    rcases eq_or_ne t .releases with rfl | ht
    · simp [Incoming.overwrite, Incoming.insertedRow, EntityRow.content, accepted, Json.str?, hnative, hhash]
    · simp [Incoming.overwrite, Incoming.insertedRow, EntityRow.content, accepted, mediaColumn, Json.str?,
        hnative, hhash, ht]
  | some row =>
    have hne : row.hash ≠ hash := hchanged row rfl
    simp [Incoming.overwrite, EntityRow.content, accepted, Json.str?, hnative, hhash, hne]

/-- The accepted row of an unchanged record is the stored one with its gaps filled. -/
theorem accepted_unchanged (hnative : rt.resolveAlias (aliasRef t record.dataId) = some nativeId)
    {row : EntityRow} (hhash : record.sha256 = .str row.hash) :
    accepted rt t record (some row.content) = some { row.content with
      media := (if t = .releases ∧ row.media.isNone = true then
        some (Json.obj (mediaForRelease rt record.data)) else none).or row.media
      gmItemId := (if row.gmItemId.isNone = true then some nativeId else none).or row.gmItemId } := by
  have hnamed : some (row.gmItemId.getD nativeId) =
      (if row.gmItemId = none then some nativeId else none).or row.gmItemId := by
    cases row.gmItemId <;> rfl
  have hmedia : (if t = .releases then row.media.or (mediaColumn rt t record.data) else row.media) =
      (if t = .releases ∧ row.media.isNone = true then
        some (Json.obj (mediaForRelease rt record.data)) else none).or row.media := by
    by_cases ht : t = .releases
    · cases hstored : row.media <;> simp [ht, mediaColumn]
    · simp [ht]
  simp [accepted, EntityRow.content, hhash, hnative, hnamed, hmedia]

/-- The backfills leave an unchanged record the accepted row. -/
theorem refreshed_of_unchanged {refreshed : Store} (hmem : (record, nativeId) ∈ resolved rt t (latest messages))
    (hfound : existing.find? (·.dataId = record.dataId) = ((st.entities t).lookup record.dataId).map
      fun row => ⟨record.dataId, row.hash, t = .releases ∧ row.media.isNone, row.gmItemId.isNone⟩)
    (hunchanged : unchanged existing record = true) (hsame : HashUnchanged t record.dataId record.sha256 st)
    (hcontent : refreshed.content t record.dataId = (st.content t record.dataId).map fun row => { row with
      media := ((mediaBackfills rt existing (resolved rt t (latest messages))).lookup record.dataId).or
        row.media
      gmItemId := ((identityBackfills existing (resolved rt t (latest messages))).lookup record.dataId).or
        row.gmItemId }) :
    refreshed.content t record.dataId = accepted rt t record (st.content t record.dataId) := by
  have hnative := (mem_of_mem_resolved hmem).2
  rw [HashUnchanged, Store.hash] at hsame
  rw [backfilledMedia_of_resolved hmem, backfilledIdentity_of_resolved hmem, hfound, hunchanged] at hcontent
  rw [hcontent, Store.content]
  cases hrow : (st.entities t).lookup record.dataId with
  | none =>
    -- a hash that equals that of no row is null: nothing is stored
    have hnull : record.sha256 = .null := by
      rw [hrow] at hsame
      exact sameHash_none.1 hsame
    simp [accepted, hnull]
  | some row =>
    have hhash : record.sha256 = .str row.hash := by
      rw [hrow] at hsame
      exact sameHash_some.1 hsame
    simp only [Option.map_some, accepted_unchanged hnative hhash]
    simp [EntityRow.content]

/-- The upsert leaves a changed record the accepted row. -/
theorem upserted_of_changed {refreshed : Store} (hmem : (record, nativeId) ∈ resolved rt t (latest messages))
    (htaken : (record.rowHash rt t).isSome = true) (hchanged : unchanged existing record = false)
    (hsame : ¬HashUnchanged t record.dataId record.sha256 st)
    (hkept : refreshed.content t record.dataId = st.content t record.dataId) :
    ((((recordsToUpsert rt existing (resolved rt t (latest messages)) t).find?
      (·.dataId = record.dataId)).map fun incoming =>
        incoming.overwrite t now ((refreshed.entities t).lookup record.dataId)).or
          ((refreshed.entities t).lookup record.dataId)).map EntityRow.content =
      accepted rt t record (st.content t record.dataId) := by
  have hnative := (mem_of_mem_resolved hmem).2
  obtain ⟨hash, hrowHash⟩ := Option.isSome_iff_exists.1 htaken
  have htext : record.sha256 = .str hash := (rowHash_eq_some.1 hrowHash).2
  have hnew : ∀ kept, (refreshed.entities t).lookup record.dataId = some kept → kept.hash ≠ hash := by
    intro kept hrow hhash
    refine hsame ?_
    rw [HashUnchanged, htext, sameHash_str, ← hash_content, ← hkept, hash_content, Store.hash, hrow,
      Option.map_some, hhash]
  have hwritten := @content_overwrite rt t record now nativeId hash hnative htext _ hnew
  rw [← Store.content, hkept] at hwritten
  rw [upserted_of_resolved hmem, hchanged, if_neg Bool.false_ne_true, hrowHash]
  exact hwritten

theorem refusedRecords_of_taken (htaken : ∀ record ∈ records, unchanged existing record = false →
    (record.rowHash rt t).isSome = true) :
    refusedRecords rt existing (resolved rt t records) t = [] := by
  refine List.filter_eq_nil_iff.2 fun pair hpair => ?_
  obtain ⟨hmem, hchanged⟩ := List.mem_filter.1 hpair
  have hsome := htaken pair.1 (mem_of_mem_resolved hmem).1 (by simpa using hchanged)
  simpa using Option.isSome_iff_ne_none.1 hsome

/-- `process_batch` of admitted records commits. -/
theorem processBatch_leaves
    (hadmits : ∀ record ∈ latest messages, Admits rt t (st.hash t record.dataId) record) :
    ∃ result st', (processBatch rt now t messages).serial engine.alone st = .ok (result, st') ∧
      Leaves rt t st (latest messages) st' := by
  have hmissing : (latest messages).filter (fun record =>
      (rt.resolveAlias (aliasRef t record.dataId)).isNone) = [] := by
    refine List.filter_eq_nil_iff.2 fun record hrecord => ?_
    have hsome := (hadmits record hrecord).resolved
    rw [Option.isSome_iff_exists] at hsome
    obtain ⟨nativeId, hnative⟩ := hsome
    simp [hnative]
  have hidentifiable : ∀ record ∈ latest messages, Identifiable rt t record :=
    fun record hrecord => (hadmits record hrecord).toIdentifiable
  obtain ⟨targets, htargets, hlookup⟩ := aliasTargets_resolved hidentifiable
  have hnew := @newDocuments_latest rt t st messages hidentifiable
  have hfound : ∀ record ∈ latest messages, _ := fun record hrecord => @find_existing t record.dataId st
    ((latest messages).map (·.dataId)) (List.mem_map_of_mem (f := (·.dataId)) hrecord)
  have hgate : ∀ record ∈ latest messages, _ := fun record hrecord =>
    @unchanged_iff t st (latest messages) record hrecord
  have hread : (Program.await (Statement.selectExisting t ((latest messages).map (·.dataId))) :
      Transaction (List Existing)).serial engine.alone st =
        .ok ((Statement.selectExisting t ((latest messages).map (·.dataId))).read st, st) := rfl
  generalize (Statement.selectExisting t ((latest messages).map (·.dataId))).read st = existing
    at hnew hfound hgate hread
  have hids : ((changedDocuments existing (resolved rt t (latest messages))).map Prod.fst).Nodup := by
    rw [changedDocuments_resolved hidentifiable, List.map_map]
    exact (latest_nodup messages).sublist (List.filter_sublist.map _)
  have hchangedHash : ∀ record ∈ latest messages, unchanged existing record = false →
      (record.rowHash rt t).isSome = true := fun record hrecord hchanged =>
    (hadmits record hrecord).taken (Bool.not_eq_true _ ▸ mt (hgate record hrecord).2 (by simp [hchanged]))
  have hrefused := refusedRecords_of_taken hchangedHash
  obtain ⟨refreshed, hrefresh, hcontent, hvertices, hedges, haliases⟩ := @serial_refreshUnchanged rt t st
    existing now (resolved rt t (latest messages))
  obtain ⟨written, hwrite, hentities, hvertices', hedges', haliases'⟩ := @serial_writeChanged rt t
    refreshed existing now (resolved rt t (latest messages)) targets hrefused hids
  refine ⟨⟨(unchangedRecords existing (resolved rt t (latest messages))).map fun (record, _) =>
    record.dataId, (mediaBackfills rt existing (resolved rt t (latest messages))).map Prod.fst,
    (identityBackfills existing (resolved rt t (latest messages))).map Prod.fst⟩, written, ?_, ?_⟩
  · simp only [processBatch, Program.serial_bind, hread]
    rw [if_neg (not_not.2 hmissing), htargets]
    simp only [Program.serial_bind, hrefresh, hwrite, Program.serial_pure]
  constructor
  case others =>
    intro t' dataId ht
    rw [Store.content, hentities, if_neg ht, ← Store.content, hcontent]
    simp [ht]
  case unwritten =>
    intro dataId hid
    rw [Store.content, hentities, if_pos rfl, upserted_of_foreign hid, Option.map_none, Option.none_or,
      ← Store.content, hcontent, backfilledMedia_of_foreign hid, backfilledIdentity_of_foreign hid]
    simp
  case written =>
    intro record hrecord
    obtain ⟨nativeId, hmem⟩ := mem_resolved hmissing hrecord
    have hmid := hcontent t record.dataId
    simp only [if_pos] at hmid
    rw [Store.content, hentities, if_pos rfl]
    by_cases hsame : HashUnchanged t record.dataId record.sha256 st
    · have hunchanged := (hgate record hrecord).2 hsame
      rw [upserted_of_resolved hmem, hunchanged, if_pos rfl, Option.map_none, Option.none_or,
        ← Store.content]
      exact refreshed_of_unchanged hmem (hfound record hrecord) hunchanged hsame hmid
    · have hchanged : unchanged existing record = false := by
        rw [← Bool.not_eq_true]
        exact fun htrue => hsame ((hgate record hrecord).1 htrue)
      -- the gate opens: no backfill touches the row, and the upsert overwrites it
      have htaken := hchangedHash record hrecord hchanged
      have hkept : refreshed.content t record.dataId = st.content t record.dataId := by
        rw [hmid, backfilledMedia_of_resolved hmem, backfilledIdentity_of_resolved hmem]
        simp [hchanged]
      exact upserted_of_changed hmem htaken hchanged hsame hkept
  case vertices => rw [hvertices', hvertices, hnew]
  case edges => rw [hedges', hedges, hnew]
  case aliases =>
    intro ref
    rw [haliases', haliases, hlookup]

end

/-! ## One record after the other -/

/-- `persist_record` of each message, at its own `NOW()`. -/
def persistEach (rt : Runtime) (cap : Rat) (t : DataType) (messages : List (Time × BatchRecord))
    (st : Store) : Store :=
  messages.foldl (fun st message =>
    (Operation.persistRecord message.1 t message.2.dataId message.2.data).settle rt cap st true) st

section

variable {cap : Rat} {record : BatchRecord} {records : List BatchRecord}

theorem settle_of_serial {α : Type} {program : Transaction α} {a : α}
    (h : program.serial engine.alone st = .ok (a, st')) :
    (program.serial engine.alone st).map Prod.snd = .ok st' := by
  rw [h]
  rfl

/-- An accepted row carries a native id its Discogs id resolves to. -/
theorem Leaves.identified (h : Leaves rt t st records st') (hidentified : Identified rt t st) :
    Identified rt t st' := by
  intro dataId row nativeId hrow hnative
  by_cases hid : dataId ∈ records.map (·.dataId)
  · obtain ⟨record, hrecord, rfl⟩ := List.mem_map.1 hid
    rw [h.written record hrecord, accepted] at hrow
    split at hrow
    · obtain ⟨prior, hprior, rfl⟩ := Option.map_eq_some_iff.1 hrow
      cases hstored : prior.gmItemId with
      | none => simpa [hstored] using hnative
      | some other =>
        obtain rfl : other = nativeId := by simpa [hstored] using hnative
        exact hidentified record.dataId prior other hprior hstored
    · obtain ⟨hash, -, rfl⟩ := Option.map_eq_some_iff.1 hrow
      exact hnative
  · rw [h.unwritten dataId hid] at hrow
    exact hidentified dataId row nativeId hrow hnative

theorem persistEach_leaves {messages : List (Time × BatchRecord)}
    (hids : (messages.map fun message => message.2.dataId).Nodup)
    (haccepts : ∀ message ∈ messages, Accepts rt t message.2)
    (hsha256 : ∀ message ∈ messages, message.2.sha256 = contentHash message.2.data)
    (hidentified : Identified rt t st) :
    Leaves rt t st (messages.map Prod.snd) (persistEach rt cap t messages st) := by
  induction messages generalizing st with
  | nil => exact Leaves.nil
  | cons message messages ih =>
    obtain ⟨hfresh, hids⟩ := List.nodup_cons.1 hids
    obtain ⟨outcome, mid, hserial, hfirst⟩ := @persistRecord_leaves rt t st message.2
      message.1 (haccepts message List.mem_cons_self) hidentified (hsha256 message List.mem_cons_self)
    have hsettle : (Operation.persistRecord message.1 t message.2.dataId message.2.data).settle rt cap st
        true = mid := by
      rw [Operation.settle, Operation.run, settle_of_serial hserial]
      rfl
    have hrest := ih hids (fun other hother => haccepts other (List.mem_cons_of_mem _ hother))
      (fun other hother => hsha256 other (List.mem_cons_of_mem _ hother)) (hfirst.identified hidentified)
    rw [persistEach, List.foldl_cons, hsettle]
    show Leaves rt t st ([message.2] ++ messages.map Prod.snd) _
    refine Leaves.append ?_ hfirst hrest
    rw [List.singleton_append, List.map_cons, List.nodup_cons, List.map_map]
    exact ⟨hfresh, hids⟩

end

/-- For every store whose native ids are those of its rows, every data type and every list of
    accepted messages of distinct ids, the batch and the messages one by one commit, and leave the
    same entity rows, vertices, edges and aliases. -/
theorem batch_equals_records (rt : Runtime) (cap : Rat) (t : DataType) (now : Time)
    (messages : List (Time × BatchRecord)) (st : Store)
    (hids : (messages.map fun message => message.2.dataId).Nodup)
    (haccepts : ∀ message ∈ messages, Accepts rt t message.2)
    (hsha256 : ∀ message ∈ messages, message.2.sha256 = contentHash message.2.data)
    (hidentified : Identified rt t st) :
    ∃ batched, (Operation.processBatch now t (messages.map Prod.snd)).run rt cap st = .ok batched ∧
      batched.Same (persistEach rt cap t messages st) := by
  have hlatest : latest (messages.map Prod.snd) = messages.map Prod.snd := by
    refine latest_of_nodup ?_
    rwa [List.map_map]
  have hadmits : ∀ record ∈ latest (messages.map Prod.snd),
      Admits rt t (st.hash t record.dataId) record := by
    rw [hlatest]
    exact List.forall_mem_map.2 fun message hmessage => (haccepts message hmessage).admits _
  obtain ⟨result, batched, hserial, hbatched⟩ := @processBatch_leaves rt t st _ now hadmits
  rw [hlatest] at hbatched
  exact ⟨batched, settle_of_serial hserial,
    hbatched.same (persistEach_leaves hids haccepts hsha256 hidentified)⟩

/-! ## Runs -/

/-- A release that mints an alias, and one with an identifiers block of another version. -/
def mintingDocument : Document :=
  [("id", .str "7"), ("sha256", .str "b"), ("genres", .arr [.str "Electronic"]),
    ("identifiers", .obj [("identifiers_version", .str "1"), ("aliases", .arr
      [.obj [("provider", .str "barcode"), ("external_id", .str "5012394144777")]])])]

def malformedDocument : Document :=
  [("id", .str "8"), ("sha256", .str "c"), ("identifiers", .obj [("identifiers_version", .str "2")])]

theorem identified_mediaNullStore : Identified concreteRuntime .releases mediaNullStore := by
  intro dataId row nativeId hrow hnative
  obtain ⟨stored, hstored, rfl⟩ := Option.map_eq_some_iff.1 hrow
  simp only [mediaNullStore, if_true, Table.lookup_insert, Table.lookup_empty] at hstored
  split at hstored
  · obtain rfl := Option.some.inj hstored
    cases hnative
  · cases hstored

theorem batch_equals_records_mixed : ∃ batched,
    (Operation.processBatch 5 .releases [⟨"9", vinylDocument, .str "b"⟩, ⟨"7", mintingDocument, .str "b"⟩]).run
      concreteRuntime 1 mediaNullStore = .ok batched ∧
    batched.Same (persistEach concreteRuntime 1 .releases
      [(6, ⟨"9", vinylDocument, .str "b"⟩), (7, ⟨"7", mintingDocument, .str "b"⟩)] mediaNullStore) := by
  refine batch_equals_records concreteRuntime 1 .releases 5
    [(6, ⟨"9", vinylDocument, .str "b"⟩), (7, ⟨"7", mintingDocument, .str "b"⟩)] mediaNullStore (by decide) ?_ ?_
    identified_mediaNullStore
  · simp only [List.forall_mem_cons]
    exact ⟨⟨⟨rfl, fun _ => by decide +kernel⟩, by decide +kernel⟩,
      ⟨⟨rfl, fun _ => by decide +kernel⟩, by decide +kernel⟩, fun _ h => absurd h List.not_mem_nil⟩
  · simp only [List.forall_mem_cons]
    exact ⟨rfl, rfl, fun _ h => absurd h List.not_mem_nil⟩

/-- A name that `jsonb` cannot hold. -/
def poisonDocument : Document :=
  [("id", .str "8"), ("sha256", .str "c"), ("name", .str "bad\x00name")]

/-- A message that is accepted, and one that is refused. -/
def besideRefused (refused : Document) : List (Time × BatchRecord) :=
  [(6, ⟨"7", mintingDocument, .str "b"⟩), (7, ⟨"8", refused, .str "c"⟩)]

theorem besideRefused_differs {refused : Document}
    (hrefused : refused ∈ [malformedDocument, poisonDocument]) :
    ¬((Operation.processBatch 5 .releases ((besideRefused refused).map Prod.snd)).settle
      concreteRuntime 1 Store.empty true).Same
        (persistEach concreteRuntime 1 .releases (besideRefused refused) Store.empty) := by
  intro hsame
  have hbatch : ∀ refused ∈ [malformedDocument, poisonDocument],
      (((Operation.processBatch 5 .releases ((besideRefused refused).map Prod.snd)).settle
        concreteRuntime 1 Store.empty true).content .releases "7").map Content.hash = none := by
    decide +kernel
  have heach : ∀ refused ∈ [malformedDocument, poisonDocument],
      ((persistEach concreteRuntime 1 .releases (besideRefused refused) Store.empty).content
        .releases "7").map Content.hash = some "b" := by
    decide +kernel
  have hhash := congrArg (Option.map Content.hash) (hsame.content .releases "7")
  rw [hbatch refused hrefused, heach refused hrefused] at hhash
  cases hhash

/-- One refused message, by its identifiers block or by PostgreSQL, rolls the whole batch back;
    alone, it is the only one lost. -/
theorem refused_message_empties_batch :
    (∀ message ∈ besideRefused malformedDocument ++ besideRefused poisonDocument,
      message.2.sha256 = contentHash message.2.data) ∧
    Identified concreteRuntime .releases Store.empty ∧
    ¬((Operation.processBatch 5 .releases ((besideRefused malformedDocument).map Prod.snd)).settle
      concreteRuntime 1 Store.empty true).Same
        (persistEach concreteRuntime 1 .releases (besideRefused malformedDocument) Store.empty) ∧
    ¬((Operation.processBatch 5 .releases ((besideRefused poisonDocument).map Prod.snd)).settle
      concreteRuntime 1 Store.empty true).Same
        (persistEach concreteRuntime 1 .releases (besideRefused poisonDocument) Store.empty) := by
  refine ⟨fun message hmessage => ?_, fun dataId row nativeId hrow => (by cases hrow),
    besideRefused_differs (by simp), besideRefused_differs (by simp)⟩
  simp only [besideRefused, List.cons_append, List.nil_append, List.mem_cons, List.not_mem_nil,
    or_false] at hmessage
  rcases hmessage with rfl | rfl | rfl | rfl
  all_goals rfl

end Tableinator
