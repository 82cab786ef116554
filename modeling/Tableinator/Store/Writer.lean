import Tableinator.Store.Statements

/-! # The write paths

The transactions of the loader as programs over `Statement`: the graph rows of a set
of documents, one record, one batch, and the purge of stale rows.  Each function is
the body of one `async with conn.transaction()`; an exception rolls it back. -/

namespace Tableinator

open Effect Relational Tableinator.Graph

/-- What makes a transaction raise by itself. -/
inductive WriteError where
  /-- `resolve_aliases` returned no native id for these rows. -/
  | unresolved (t : DataType) (ids : List String)
  /-- `IdentifierValidationError`. -/
  | malformedIdentifiers
  /-- PostgreSQL refused these rows. -/
  | refused (t : DataType) (ids : List String)
  /-- The page loop of the sweep was cut off. -/
  | interrupted
  deriving DecidableEq, Repr

abbrev Transaction (α : Type) := Program Statement WriteError α

/-- A statement the source issues only when it has rows for it. -/
def unlessEmpty {β : Type} (rows : List β) (op : Statement PUnit) : Transaction PUnit :=
  if rows.isEmpty then pure ⟨⟩ else Program.await op

variable (rt : Runtime)

/-! ## The graph rows of a set of documents -/

section

variable (t : DataType) (documents : List (String × Document))

def derivedGraphs : List (String × DocumentGraph) :=
  documents.map fun (dataId, data) => (dataId, deriveDocument rt t dataId data)

/-- The vertex rows of the batch, in the order they are locked. -/
def vertexRows (v : VertexRelation) : List (VertexRow v) :=
  (unique ((derivedGraphs rt t documents).flatMap fun (_, graph) => graph.vertices v)).insertionSort
    fun a b => vertexOrder a.cells b.cells

/-- The edge rows of the batch, in the order they are locked. -/
def edgeRows (r : EdgeRelation) : List (EdgeRow r) :=
  (unique ((derivedGraphs rt t documents).flatMap fun (_, graph) => graph.edges r)).insertionSort
    fun a b => edgeOrder a.cells b.cells

/-- `replaced_ids[relation]`, sorted. -/
def replacedIds (r : EdgeRelation) : List String :=
  (((derivedGraphs rt t documents).filter fun (_, graph) => r ∈ graph.replaced).map Prod.fst)
    |>.insertionSort (· ≤ ·)

end

/-- The relations a document can replace, in the order of their names. -/
def replacedOrder : List EdgeRelation :=
  [.aliasOf, .byArtist, .creditedOn, .creditedTo, .derivedFrom, .inGenre, .inStyle, .issuedOn,
    .masterByArtist, .masterInGenre, .masterInStyle, .onLabel, .trackByArtist, .trackCreditedOn]

/-- `write_document_graph`: vertices, the document-scoped deletes, the edges. -/
def writeDocumentGraph (t : DataType) (documents : List (String × Document)) :
    Transaction PUnit := do
  (vertexRelations.filter fun v => vertexRows rt t documents v ≠ []).forM fun v =>
    Program.await (.insertVertices v (vertexRows rt t documents v))
  (replacedOrder.filter fun r => replacedIds rt t documents r ≠ []).forM fun r =>
    Program.await (.deleteScoped r (replacedIds rt t documents r))
  (edgeRelations.filter fun r => edgeRows rt t documents r ≠ []).forM fun r =>
    Program.await (.insertEdges r (edgeRows rt t documents r))

/-- `attach_alias_targets`. -/
def attachAliasTargets (targets : List (AliasRef × NativeId)) : Transaction PUnit :=
  unlessEmpty targets (.attachAliases targets)

/-! ## One record -/

/-- `data.get("sha256", "")`. -/
def contentHash (data : Document) : Json := (data.lookup "sha256").getD (.str "")

/-- The `hash` of the row, where PostgreSQL takes it: the column holds text and is `NOT NULL`. -/
def rowHash (t : DataType) (dataId : String) (data : Document) (sha256 : Json) : Option String :=
  if rt.storable t dataId data then sha256.str? else none

/-- The media column of an upsert; only `releases` has one. -/
def mediaColumn (t : DataType) (data : Document) : Option Json :=
  if t = .releases then some (.obj (mediaForRelease rt data)) else none

/-- The parameters of the single-record upsert. -/
def recordParameters (t : DataType) (hash dataId : String) (data : Document) (gmItemId : NativeId) :
    Incoming :=
  ⟨hash, dataId, data, mediaColumn rt t data, gmItemId⟩

section

variable (t : DataType) (hash dataId : String) (data : Document) (gmItemId : NativeId)

@[simp] theorem recordParameters_hash :
    (recordParameters rt t hash dataId data gmItemId).hash = hash := rfl

@[simp] theorem recordParameters_dataId :
    (recordParameters rt t hash dataId data gmItemId).dataId = dataId := rfl

@[simp] theorem recordParameters_data :
    (recordParameters rt t hash dataId data gmItemId).data = data := rfl

@[simp] theorem recordParameters_media :
    (recordParameters rt t hash dataId data gmItemId).media = mediaColumn rt t data := rfl

@[simp] theorem recordParameters_gmItemId :
    (recordParameters rt t hash dataId data gmItemId).gmItemId = gmItemId := rfl

end

/-- The telemetry outcome of one record. -/
inductive Outcome where
  | processed
  | mediaBackfilled
  deriving DecidableEq, Repr

/-- `content_changed`: no `prior` row is a first sight of the document. -/
def contentChanged (prior : Option Prior) : Bool := (prior.map (·.contentChanged)).getD true

/-- `persist_record`.  The gate is the `prior` row of the upsert's own snapshot. -/
def persistRecord (now : Time) (t : DataType) (dataId : String) (data : Document) :
    Transaction Outcome :=
  match rt.resolveAlias (aliasRef t dataId) with
  | none => .raise (.unresolved t [dataId])
  | some gmItemId =>
    match rowHash rt t dataId data (contentHash data) with
    | none => .raise (.refused t [dataId])
    | some hash => do
      -- one statement reads the prior row and upserts the new one
      let prior ← Program.await
        (.upsertRecord t now (recordParameters rt t hash dataId data gmItemId))
      match aliasTargets rt t [(data, gmItemId)] with
      | none => .raise .malformedIdentifiers
      | some targets => do
        attachAliasTargets targets
        if contentChanged prior then
          writeDocumentGraph rt t [(dataId, data)]
        return if (prior.map (·.mediaBackfilled)).getD false then .mediaBackfilled else .processed

/-! ## One batch -/

/-- `BatchRecord`. -/
structure BatchRecord where
  dataId : String
  data : Document
  sha256 : Json

/-- Dictionary assignment: a repeated id keeps its place and takes the new value. -/
def putRecord (record : BatchRecord) : List BatchRecord → List BatchRecord
  | [] => [record]
  | head :: records =>
    if head.dataId = record.dataId then record :: records else head :: putRecord record records

/-- `list({msg.data_id: msg for msg in messages}.values())`. -/
def latest (messages : List BatchRecord) : List BatchRecord :=
  messages.foldl (fun records record => putRecord record records) []

/-- The records with their native ids; one without is left out. -/
def resolved (t : DataType) (records : List BatchRecord) : List (BatchRecord × NativeId) :=
  records.filterMap fun record =>
    (rt.resolveAlias (aliasRef t record.dataId)).map fun nativeId => (record, nativeId)

/-- `existing_hash == msg.sha256`; no row is `None`. -/
def sameHash (stored : Option String) (sha256 : Json) : Bool :=
  match stored, sha256 with
  | some hash, .str sha256 => hash = sha256
  | none, .null => true
  | _, _ => false

section

variable {rt} {stored : Option String} {hash : String} {sha256 : Json}

@[simp] theorem sameHash_str : sameHash stored (.str hash) = true ↔ stored = some hash := by
  cases stored <;> simp [sameHash]

@[simp] theorem sameHash_some : sameHash (some hash) sha256 = true ↔ sha256 = .str hash := by
  cases sha256 <;> simp [sameHash, eq_comm]

@[simp] theorem sameHash_none : sameHash none sha256 = true ↔ sha256 = .null := by
  cases sha256 <;> simp [sameHash]

theorem rowHash_eq_some {t : DataType} {dataId : String} {data : Document} :
    rowHash rt t dataId data sha256 = some hash ↔
      rt.storable t dataId data = true ∧ sha256 = .str hash := by
  unfold rowHash
  cases sha256 <;> simp [Json.str?]

end

/-- The hash gate of the batch, on the rows its `SELECT` returned. -/
def unchanged (existing : List Existing) (record : BatchRecord) : Bool :=
  sameHash ((existing.find? (·.dataId = record.dataId)).map (·.hash)) record.sha256

/-- The `hash` of the record's row, where PostgreSQL takes it. -/
def BatchRecord.rowHash (t : DataType) (record : BatchRecord) : Option String :=
  Tableinator.rowHash rt t record.dataId record.data record.sha256

/-- `BatchWriteResult`. -/
structure BatchWriteResult where
  unchangedIds : List String
  mediaBackfilledIds : List String
  identityBackfilledIds : List String

section

variable (existing : List Existing) (records : List (BatchRecord × NativeId))

def unchangedRecords : List (BatchRecord × NativeId) :=
  records.filter fun (record, _) => unchanged existing record

def changedRecords : List (BatchRecord × NativeId) :=
  records.filter fun (record, _) => !unchanged existing record

def mediaBackfills : List (String × Json) :=
  ((unchangedRecords existing records).filter fun (record, _) =>
    (existing.find? (·.dataId = record.dataId)).any (·.mediaIsNull)).map fun (record, _) =>
      (record.dataId, .obj (mediaForRelease rt record.data))

def identityBackfills : List (String × NativeId) :=
  ((unchangedRecords existing records).filter fun (record, _) =>
    (existing.find? (·.dataId = record.dataId)).any (·.identityIsNull)).map fun (record, nativeId) =>
      (record.dataId, nativeId)

/-- The unchanged rows no backfill touches. -/
def refreshIds : List String :=
  ((unchangedRecords existing records).map fun (record, _) => record.dataId).filter fun dataId =>
    dataId ∉ (mediaBackfills rt existing records).map Prod.fst ∧
      dataId ∉ (identityBackfills existing records).map Prod.fst

/-- The changed records PostgreSQL refuses. -/
def refusedRecords (t : DataType) : List (BatchRecord × NativeId) :=
  (changedRecords existing records).filter fun (record, _) => (record.rowHash rt t).isNone

def recordsToUpsert (t : DataType) : List Incoming :=
  ((changedRecords existing records).filterMap fun (record, nativeId) =>
    (record.rowHash rt t).map fun hash =>
      recordParameters rt t hash record.dataId record.data nativeId)
      |>.insertionSort fun a b => a.dataId ≤ b.dataId

def changedDocuments : List (String × Document) :=
  (changedRecords existing records).map fun (record, _) => (record.dataId, record.data)

end

/-- The statements of `_process_batch` on rows the gate found unchanged. -/
def refreshUnchanged (now : Time) (t : DataType) (existing : List Existing)
    (identified : List (BatchRecord × NativeId)) : Transaction PUnit := do
  unlessEmpty (refreshIds rt existing identified)
    (.refresh t now (refreshIds rt existing identified))
  unlessEmpty (mediaBackfills rt existing identified)
    (.backfillMedia t now (mediaBackfills rt existing identified))
  unlessEmpty (identityBackfills existing identified)
    (.backfillIdentity t now (identityBackfills existing identified))

/-- The statements of `_process_batch` from its upsert on.  The payload of an unchanged record
    is not sent. -/
def writeChanged (now : Time) (t : DataType) (existing : List Existing)
    (identified : List (BatchRecord × NativeId)) (targets : List (AliasRef × NativeId)) :
    Transaction PUnit :=
  let refused := refusedRecords rt existing identified t
  if refused ≠ [] then
    .raise (.refused t (refused.map fun (record, _) => record.dataId))
  else do
    unlessEmpty (recordsToUpsert rt existing identified t)
      (.upsertRecords t now (recordsToUpsert rt existing identified t))
    attachAliasTargets targets
    writeDocumentGraph rt t (changedDocuments existing identified)

/-- `_process_batch`. -/
def processBatch (now : Time) (t : DataType) (messages : List BatchRecord) :
    Transaction BatchWriteResult := do
  let records := latest messages
  let existing ← Program.await (.selectExisting t (records.map (·.dataId)))
  let missing := records.filter fun record => (rt.resolveAlias (aliasRef t record.dataId)).isNone
  -- one unresolved record fails the batch
  if missing ≠ [] then
    .raise (.unresolved t ((missing.map (·.dataId)).insertionSort (· ≤ ·)))
  else
    let identified := resolved rt t records
    match aliasTargets rt t (identified.map fun (record, nativeId) => (record.data, nativeId)) with
    | none => .raise .malformedIdentifiers
    | some targets => do
      refreshUnchanged rt now t existing identified
      writeChanged rt now t existing identified targets
      return ⟨(unchangedRecords existing identified).map fun (record, _) => record.dataId,
        (mediaBackfills rt existing identified).map Prod.fst,
        (identityBackfills existing identified).map Prod.fst⟩

/-! ## The purge -/

/-- `purge_document_graph`. -/
def purgeDocumentGraph (t : DataType) (startedAt : Time) : Transaction PUnit :=
  (purgeScope t).forM fun r => Program.await (.purgeEdges r t startedAt)

/-- `purge_stale_rows`.  `cap` is `purge_max_delete_fraction`; a signal without
    `started_at`, or one that reports no records, purges nothing. -/
def purgeStaleRows (cap : Rat) (t : DataType) (startedAt : Option Time)
    (recordCount : Option Nat) : Transaction PUnit :=
  match startedAt with
  | none => pure ⟨⟩
  | some startedAt =>
    if recordCount = some 0 then pure ⟨⟩
    else do
      let totalCount ← Program.await (.countRows t)
      if totalCount = 0 then pure ⟨⟩
      else do
        let staleCount ← Program.await (.countStale t startedAt)
        if staleCount = 0 then pure ⟨⟩
        -- the cap is on the share of the table the purge would delete
        else if cap ≤ (staleCount : Rat) / totalCount then pure ⟨⟩
        else do
          purgeDocumentGraph t startedAt
          Program.await (.purgeRows t startedAt)

/-! ## The statements of each path -/

section

variable {rt} {p : ∀ {ρ}, Statement ρ → Prop}

theorem issues_unlessEmpty {β : Type} {rows : List β} {op : Statement PUnit} (h : p op) :
    Program.Issues p (unlessEmpty rows op) := by
  unfold unlessEmpty
  split
  · trivial
  · exact (Program.issues_await op).2 h

theorem issues_writeDocumentGraph {t : DataType} {documents : List (String × Document)}
    (hvertices : ∀ v, p (.insertVertices v (vertexRows rt t documents v)))
    (hscoped : ∀ r, p (.deleteScoped r (replacedIds rt t documents r)))
    (hedges : ∀ r, p (.insertEdges r (edgeRows rt t documents r))) :
    Program.Issues p (writeDocumentGraph rt t documents) :=
  Program.issues_bind (Program.issues_forM fun v _ => (Program.issues_await _).2 (hvertices v))
    fun _ => Program.issues_bind
      (Program.issues_forM fun r _ => (Program.issues_await _).2 (hscoped r))
      fun _ => Program.issues_forM fun r _ => (Program.issues_await _).2 (hedges r)

theorem issues_persistRecord {now : Time} {t : DataType} {dataId : String} {data : Document}
    (hupsert : ∀ hash gmItemId, rowHash rt t dataId data (contentHash data) = some hash →
      p (.upsertRecord t now (recordParameters rt t hash dataId data gmItemId)))
    (haliases : ∀ targets, p (.attachAliases targets))
    (hgraph : Program.Issues p (writeDocumentGraph rt t [(dataId, data)])) :
    Program.Issues p (persistRecord rt now t dataId data) := by
  unfold persistRecord
  cases rt.resolveAlias (aliasRef t dataId) with
  | none => trivial
  | some gmItemId =>
    cases hhash : rowHash rt t dataId data (contentHash data) with
    | none => trivial
    | some hash =>
      refine Program.issues_bind ((Program.issues_await _).2 (hupsert hash gmItemId hhash)) fun prior => ?_
      cases aliasTargets rt t [(data, gmItemId)] with
      | none => trivial
      | some targets =>
        refine Program.issues_bind (issues_unlessEmpty (haliases targets)) fun _ => ?_
        cases contentChanged prior with
        | true => exact Program.issues_bind hgraph fun _ => Program.issues_pure _
        | false => exact Program.issues_pure _

theorem issues_refreshUnchanged {now : Time} {t : DataType} {existing : List Existing}
    {identified : List (BatchRecord × NativeId)} (hrefresh : ∀ ids, p (.refresh t now ids))
    (hmedia : ∀ rows, p (.backfillMedia t now rows))
    (hidentity : ∀ rows, p (.backfillIdentity t now rows)) :
    Program.Issues p (refreshUnchanged rt now t existing identified) :=
  Program.issues_bind (issues_unlessEmpty (hrefresh _)) fun _ =>
    Program.issues_bind (issues_unlessEmpty (hmedia _)) fun _ => issues_unlessEmpty (hidentity _)

theorem issues_writeChanged {now : Time} {t : DataType} {existing : List Existing}
    {identified : List (BatchRecord × NativeId)} {targets : List (AliasRef × NativeId)}
    (hupsert : p (.upsertRecords t now (recordsToUpsert rt existing identified t)))
    (haliases : p (.attachAliases targets))
    (hgraph : Program.Issues p (writeDocumentGraph rt t (changedDocuments existing identified))) :
    Program.Issues p (writeChanged rt now t existing identified targets) := by
  unfold writeChanged
  dsimp only
  split
  · trivial
  · exact Program.issues_bind (issues_unlessEmpty hupsert) fun _ =>
      Program.issues_bind (issues_unlessEmpty haliases) fun _ => hgraph

theorem issues_processBatch {now : Time} {t : DataType} {messages : List BatchRecord}
    (hselect : p (.selectExisting t ((latest messages).map (·.dataId))))
    (hrefresh : ∀ existing, Program.Issues p
      (refreshUnchanged rt now t existing (resolved rt t (latest messages))))
    (hchanged : ∀ existing targets, Program.Issues p
      (writeChanged rt now t existing (resolved rt t (latest messages)) targets)) :
    Program.Issues p (processBatch rt now t messages) := by
  refine Program.issues_bind ((Program.issues_await _).2 hselect) fun existing => ?_
  dsimp only
  split
  · trivial
  · split
    · trivial
    · exact Program.issues_bind (hrefresh existing) fun _ =>
        Program.issues_bind (hchanged existing _) fun _ => Program.issues_pure _

theorem issues_purgeStaleRows {cap : Rat} {t : DataType} {startedAt : Option Time}
    {recordCount : Option Nat} (hcount : p (.countRows t))
    (hstale : ∀ startedAt, p (.countStale t startedAt))
    (hedges : ∀ r ∈ purgeScope t, ∀ startedAt, p (.purgeEdges r t startedAt))
    (hrows : ∀ startedAt, p (.purgeRows t startedAt)) :
    Program.Issues p (purgeStaleRows cap t startedAt recordCount) := by
  unfold purgeStaleRows
  cases startedAt with
  | none => trivial
  | some startedAt =>
    dsimp only
    split
    · trivial
    · refine Program.issues_bind ((Program.issues_await _).2 hcount) fun total => ?_
      split
      · trivial
      · refine Program.issues_bind ((Program.issues_await _).2 (hstale startedAt)) fun stale => ?_
        split
        · trivial
        · split
          · trivial
          · refine Program.issues_bind (Program.issues_forM fun r hr => ?_) fun _ =>
              (Program.issues_await _).2 (hrows startedAt)
            exact (Program.issues_await _).2 (hedges r hr startedAt)

end

end Tableinator
