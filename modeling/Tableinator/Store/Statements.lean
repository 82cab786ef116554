import Tableinator.Graph.Derivation
import Tableinator.Relational.ReadCommitted
import Tableinator.Store.Tables

/-! # Statements

The SQL the loader issues against these tables, one constructor per statement of
the source.  A statement has a reply, read on its snapshot, and a change, planned on
the snapshot and applied to the rows it meets.  `dead` are the snapshot rows another
transaction has deleted since: a `DELETE` or an `UPDATE` passes them over, and
re-evaluates its predicate on a row that was updated meanwhile. -/

namespace Tableinator

open Relational Tableinator.Graph

/-- One row of the entity upserts' parameters. -/
structure Incoming where
  hash : String
  dataId : String
  data : Document
  media : Option Json
  gmItemId : NativeId

/-- One row of the batch's `SELECT data_id, hash, …`. -/
structure Existing where
  dataId : String
  hash : String
  mediaIsNull : Bool
  identityIsNull : Bool

/-- What the single-record upsert reports of its `prior` row. -/
structure Prior where
  mediaBackfilled : Bool
  contentChanged : Bool

/-- `ADDITIVE_RELATIONS`. -/
inductive AdditiveRelation where
  | memberOf
  | sameAs
  deriving DecidableEq, Repr

namespace AdditiveRelation

def relation : AdditiveRelation → EdgeRelation
  | .memberOf => .memberOf
  | .sameAs => .sameAs

def table : AdditiveRelation → DataType
  | .memberOf => .artists
  | .sameAs => .releases

/-- The predicate selecting the documents that could assert a row. -/
def selects (a : AdditiveRelation) (data : Json) : Bool :=
  match a with
  | .memberOf => (data.field "members").nonEmptyArray || (data.field "groups").nonEmptyArray
  | .sameAs => (data.field "extraartists").nonEmptyArray

end AdditiveRelation

inductive Statement : Type → Type where
  | selectExisting (t : DataType) (ids : List String) : Statement (List Existing)
  | upsertRecord (t : DataType) (now : Time) (incoming : Incoming) : Statement (Option Prior)
  | refresh (t : DataType) (now : Time) (ids : List String) : Statement PUnit
  | backfillMedia (t : DataType) (now : Time) (rows : List (String × Json)) : Statement PUnit
  | backfillIdentity (t : DataType) (now : Time) (rows : List (String × NativeId)) :
      Statement PUnit
  | upsertRecords (t : DataType) (now : Time) (rows : List Incoming) : Statement PUnit
  | attachAliases (targets : List (AliasRef × NativeId)) : Statement PUnit
  | insertVertices (v : VertexRelation) (rows : List (VertexRow v)) : Statement PUnit
  | deleteScoped (r : EdgeRelation) (ids : List String) : Statement PUnit
  | insertEdges (r : EdgeRelation) (rows : List (EdgeRow r)) : Statement PUnit
  | countRows (t : DataType) : Statement Nat
  | countStale (t : DataType) (startedAt : Time) : Statement Nat
  | purgeEdges (r : EdgeRelation) (t : DataType) (startedAt : Time) : Statement PUnit
  | purgeRows (t : DataType) (startedAt : Time) : Statement PUnit
  | documentPage (a : AdditiveRelation) (lastId : String) (limit : Nat) :
      Statement (List (String × Json))
  | insertAsserted (a : AdditiveRelation) (asserted : List (EdgeRow a.relation)) : Statement PUnit
  | deleteUnasserted (a : AdditiveRelation) (asserted : List (EdgeRow a.relation)) :
      Statement PUnit

/-! ## Entity rows -/

namespace Incoming

/-- The row a first sight of the document inserts. -/
def insertedRow (incoming : Incoming) (now : Time) : EntityRow :=
  ⟨incoming.hash, .obj incoming.data, incoming.media, some incoming.gmItemId, now⟩

/-- `DO UPDATE` of the single-record upsert: the payload is written only over another hash,
    and a `NULL` media is filled in. -/
def revise (incoming : Incoming) (t : DataType) (now : Time) : Option EntityRow → EntityRow
  | none => incoming.insertedRow now
  | some row =>
    { hash := if row.hash ≠ incoming.hash then incoming.hash else row.hash
      data := if row.hash ≠ incoming.hash then .obj incoming.data else row.data
      media := if t = .releases ∧ (row.hash ≠ incoming.hash ∨ row.media.isNone) then incoming.media
        else row.media
      gmItemId := some incoming.gmItemId
      updatedAt := now }

/-- `DO UPDATE` of the batch upsert: the payload is written whatever was there. -/
def overwrite (incoming : Incoming) (t : DataType) (now : Time) : Option EntityRow → EntityRow
  | none => incoming.insertedRow now
  | some row =>
    { hash := incoming.hash
      data := .obj incoming.data
      media := if t = .releases then incoming.media else row.media
      gmItemId := some incoming.gmItemId
      updatedAt := now }

end Incoming

def EntityRow.stale (row : EntityRow) (startedAt : Time) : Bool := row.updatedAt < startedAt

/-- The ids of the rows the purge names by `updated_at < started_at`. -/
def Store.staleIds (st : Store) (t : DataType) (startedAt : Time) : List String :=
  ((st.entities t).rows.filter fun (_, row) => row.stale startedAt).map Prod.fst

/-! ## The meaning of a statement -/

namespace Statement

/-- The reply, on the statement's snapshot. -/
def read : ∀ {ρ}, Statement ρ → Store → ρ
  | _, .selectExisting t ids, st => ids.filterMap fun dataId =>
      ((st.entities t).lookup dataId).map fun row =>
        ⟨dataId, row.hash, t = .releases ∧ row.media.isNone, row.gmItemId.isNone⟩
  | _, .upsertRecord t _ incoming, st => ((st.entities t).lookup incoming.dataId).map fun row =>
      ⟨t = .releases ∧ row.hash = incoming.hash ∧ row.media.isNone, row.hash ≠ incoming.hash⟩
  | _, .countRows t, st => (st.entities t).rows.length
  | _, .countStale t startedAt, st => (st.staleIds t startedAt).length
  | _, .documentPage a lastId limit, st =>
      ((st.entities a.table).page (fun row => a.selects row.data) lastId limit).map
        fun (dataId, row) => (dataId, row.data)
  | _, .refresh _ _ _, _ => ⟨⟩
  | _, .backfillMedia _ _ _, _ => ⟨⟩
  | _, .backfillIdentity _ _ _, _ => ⟨⟩
  | _, .upsertRecords _ _ _, _ => ⟨⟩
  | _, .attachAliases _, _ => ⟨⟩
  | _, .insertVertices _ _, _ => ⟨⟩
  | _, .deleteScoped _ _, _ => ⟨⟩
  | _, .insertEdges _ _, _ => ⟨⟩
  | _, .purgeEdges _ _ _, _ => ⟨⟩
  | _, .purgeRows _ _, _ => ⟨⟩
  | _, .insertAsserted _ _, _ => ⟨⟩
  | _, .deleteUnasserted _ _, _ => ⟨⟩

section

variable (snapshot : Store) (dead : Finset Slot)

/-- The rows of an `UPDATE`: those of its ids the snapshot holds, and no one has deleted. -/
def updated (t : DataType) (ids : List String) : List String :=
  ids.filter fun dataId => ((snapshot.entities t).lookup dataId).isSome ∧ .entity t dataId ∉ dead

/-- The rows of a `DELETE`: those of the snapshot its predicate holds for. -/
def doomed (r : EdgeRelation) (p : EdgeRow r → Bool) (row : EdgeRow r) : Bool :=
  row ∈ snapshot.edges r ∧ .edge r row ∉ dead ∧ p row = true

def change : ∀ {ρ}, Statement ρ → Change
  | _, .upsertRecord t now incoming =>
      .entities t [incoming.dataId] fun _ row => some (incoming.revise t now row)
  | _, .refresh t now ids =>
      .entities t (updated snapshot dead t ids) fun _ row =>
        row.map fun row => { row with updatedAt := now }
  | _, .backfillMedia t now rows =>
      .entities t (updated snapshot dead t (rows.map Prod.fst)) fun dataId row =>
        row.map fun row => { row with media := rows.lookup dataId, updatedAt := now }
  | _, .backfillIdentity t now rows =>
      .entities t (updated snapshot dead t (rows.map Prod.fst)) fun dataId row =>
        row.map fun row => { row with gmItemId := rows.lookup dataId, updatedAt := now }
  | _, .upsertRecords t now rows =>
      .entities t (rows.map (·.dataId)) fun dataId row =>
        match rows.find? (·.dataId = dataId) with
        | some incoming => some (incoming.overwrite t now row)
        | none => row
  | _, .attachAliases targets => .aliases targets
  | _, .insertVertices v rows => .vertices v rows
  | _, .deleteScoped r ids =>
      .prune r (doomed snapshot dead r fun row => ids.any fun dataId => row.Names dataId)
  | _, .insertEdges r rows => .edges r rows
  | _, .purgeEdges r t startedAt =>
      .prune r (doomed snapshot dead r fun row =>
        (snapshot.staleIds t startedAt).any fun dataId => row.Names dataId)
  | _, .purgeRows t startedAt =>
      .entities t (updated snapshot dead t (snapshot.staleIds t startedAt)) fun _ row =>
        row.filter fun row => !row.stale startedAt
  | _, .insertAsserted a asserted => .edges a.relation (unique asserted)
  | _, .deleteUnasserted a asserted =>
      .prune a.relation (doomed snapshot dead a.relation fun row => row ∉ asserted)
  | _, .selectExisting _ _ => .keep
  | _, .countRows _ => .keep
  | _, .countStale _ _ => .keep
  | _, .documentPage _ _ _ => .keep

end

end Statement

/-- The row-level meaning of the loader's statements; entity rows are updated in place. -/
def engine : Engine Slot Store Statement where
  Row := Slot.Row
  get := Store.get
  overlay := Store.overlay
  read := Statement.read
  waits op snapshot dead := (op.change snapshot dead).waits
  writes op snapshot dead latest := (op.change snapshot dead).writes latest
  apply op snapshot dead latest := (op.change snapshot dead).apply latest
  revises
    | .entity _ _ => true
    | _ => false
  get_overlay := Store.get_overlay
  get_apply _ _ _ _ _ := Change.get_apply
  waits_of_writes _ _ _ _ _ := Change.waits_of_writes

/-! ## What a session sees -/

section

variable {ι ε α ρ : Type} {σ : System ι Slot Store Statement ε α} {i : ι}

theorem lookup_view {t : DataType} {dataId : String} :
    ((σ.view engine i).entities t).lookup dataId =
      if .entity t dataId ∈ (σ.sessions i).held then ((σ.sessions i).own.entities t).lookup dataId
      else (σ.committed.entities t).lookup dataId := by
  have hget : engine.get (σ.view engine i) (.entity t dataId) = _ := engine.get_view
  exact hget

theorem mem_view {r : EdgeRelation} {edge : EdgeRow r} :
    edge ∈ (σ.view engine i).edges r ↔
      if .edge r edge ∈ (σ.sessions i).held then edge ∈ (σ.sessions i).own.edges r
      else edge ∈ σ.committed.edges r := by
  by_cases hheld : .edge r edge ∈ (σ.sessions i).held
  · simp [System.view, Session.view, engine, Store.overlay, hheld]
  · simp [System.view, Session.view, engine, Store.overlay, hheld]

/-- A session without writes sees what is committed. -/
theorem view_of_held_empty (h : (σ.sessions i).held = ∅) : σ.view engine i = σ.committed := by
  apply Store.ext_get
  intro slot
  have hget : engine.get (σ.view engine i) slot = _ := engine.get_view
  rw [h, if_neg (Finset.notMem_empty slot)] at hget
  exact hget

/-- After a statement the session sees what the statement made of its view. -/
theorem view_finished [DecidableEq ι] {run : Running Slot Store} {op : Statement ρ}
    {k : Except ε ρ → Effect.Program Statement ε α} : (σ.finished engine i run op k).view engine i =
      (op.change run.snapshot run.dead).apply (σ.view engine i) := by
  apply Store.ext_get
  intro slot
  rw [System.view, System.finished, System.set_sessions_self]
  exact engine.get_view_finished slot

end

theorem alone_store {ρ : Type} (op : Statement ρ) (st : Store) :
    (engine.alone op st).2 = (op.change st ∅).apply st := rfl

theorem Store.mem_staleIds {st : Store} {t : DataType} {startedAt : Time} {dataId : String} :
    dataId ∈ st.staleIds t startedAt ↔
      ∃ row, (st.entities t).lookup dataId = some row ∧ row.stale startedAt = true := by
  simp only [staleIds, List.mem_map, List.mem_filter, Prod.exists, Table.mem_rows]
  constructor
  · rintro ⟨_, row, ⟨hlookup, hstale⟩, rfl⟩
    exact ⟨row, hlookup, hstale⟩
  · rintro ⟨row, hlookup, hstale⟩
    exact ⟨dataId, row, ⟨hlookup, hstale⟩, rfl⟩

end Tableinator
