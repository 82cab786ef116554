import Mathlib.Data.Finset.Basic
import Tableinator.Catalog

/-! # The graph schema

The sixteen edge relations and the six vertex relations the loader writes, their
columns and keys, and the two tables of the writer that say which column names the
asserting document: `_DOCUMENT_SCOPE` and `_PURGE_SCOPE`. -/

namespace Tableinator.Graph

inductive EdgeRelation where
  | byArtist
  | onLabel
  | derivedFrom
  | inGenre
  | inStyle
  | masterByArtist
  | masterInGenre
  | masterInStyle
  | memberOf
  | aliasOf
  | creditedOn
  | sameAs
  | creditedTo
  | issuedOn
  | trackCreditedOn
  | trackByArtist
  deriving DecidableEq, Repr

inductive VertexRelation where
  | genre
  | style
  | person
  | mediaFamily
  | medium
  | company
  deriving DecidableEq, Repr

inductive Column where
  | releaseId
  | artistId
  | labelId
  | masterId
  | genreName
  | styleName
  | memberArtistId
  | groupArtistId
  | aliasArtistId
  | personName
  | role
  | companyId
  | roleCategory
  | source
  | mediumId
  | qty
  | trackOrdinal
  | subTrackOrdinal
  | trackPosition
  | name
  | family
  | label
  | discogsLabelId
  deriving DecidableEq, Repr

/-- A column value: `text`, `bigint` or SQL's `NULL`. -/
inductive Cell where
  | text (s : String)
  | bigint (n : Int)
  | null
  deriving DecidableEq, Repr

/-- A text column that may be `NULL`. -/
def Cell.ofOption : Option String → Cell
  | some s => .text s
  | none => .null

/-- `EDGE_COLUMNS`. -/
def edgeColumns : EdgeRelation → List Column
  | .byArtist => [.releaseId, .artistId]
  | .onLabel => [.releaseId, .labelId]
  | .derivedFrom => [.releaseId, .masterId]
  | .inGenre => [.releaseId, .genreName]
  | .inStyle => [.releaseId, .styleName]
  | .masterByArtist => [.masterId, .artistId]
  | .masterInGenre => [.masterId, .genreName]
  | .masterInStyle => [.masterId, .styleName]
  | .memberOf => [.memberArtistId, .groupArtistId]
  | .aliasOf => [.aliasArtistId, .artistId]
  | .creditedOn => [.personName, .releaseId, .role]
  | .sameAs => [.personName, .artistId]
  | .creditedTo => [.releaseId, .companyId, .role, .roleCategory, .source]
  | .issuedOn => [.releaseId, .mediumId, .source, .qty]
  | .trackCreditedOn =>
    [.personName, .releaseId, .trackOrdinal, .subTrackOrdinal, .trackPosition, .role]
  | .trackByArtist => [.releaseId, .trackOrdinal, .subTrackOrdinal, .trackPosition, .artistId]

/-- `VERTEX_COLUMNS`. -/
def vertexColumns : VertexRelation → List Column
  | .genre => [.name]
  | .style => [.name]
  | .person => [.name]
  | .mediaFamily => [.name]
  | .medium => [.mediumId, .family, .label]
  | .company => [.companyId, .name, .discogsLabelId]

/-- The order the writer inserts edge relations in. -/
def edgeRelations : List EdgeRelation :=
  [.byArtist, .onLabel, .derivedFrom, .inGenre, .inStyle, .masterByArtist, .masterInGenre,
    .masterInStyle, .memberOf, .aliasOf, .creditedOn, .sameAs, .creditedTo, .issuedOn,
    .trackCreditedOn, .trackByArtist]

/-- The order the writer inserts vertex relations in. -/
def vertexRelations : List VertexRelation :=
  [.genre, .style, .person, .mediaFamily, .medium, .company]

@[simp] theorem mem_edgeRelations (r : EdgeRelation) : r ∈ edgeRelations := by cases r <;> decide

@[simp] theorem mem_vertexRelations (v : VertexRelation) : v ∈ vertexRelations := by
  cases v <;> decide

theorem edgeRelations_nodup : edgeRelations.Nodup := by decide

theorem vertexRelations_nodup : vertexRelations.Nodup := by decide

/-! ## Rows -/

/-- A row of an edge relation: one cell per column. -/
structure EdgeRow (r : EdgeRelation) where
  cells : List Cell
  arity : cells.length = (edgeColumns r).length
  deriving DecidableEq

/-- A row of a vertex relation. -/
structure VertexRow (v : VertexRelation) where
  cells : List Cell
  arity : cells.length = (vertexColumns v).length
  deriving DecidableEq

/-- The columns outside every unique index of the schema: what a row says about its key. -/
def Column.describes : Column → Bool
  | .qty | .roleCategory | .trackPosition => true
  | _ => false

namespace EdgeRow

variable {r : EdgeRelation}

def cell (row : EdgeRow r) (column : Column) : Option Cell :=
  ((edgeColumns r).zip row.cells).lookup column

def keyColumns (r : EdgeRelation) : List Column := (edgeColumns r).filter fun column => !column.describes

/-- The unique key `ON CONFLICT` arbitrates on. -/
def key (row : EdgeRow r) : List (Option Cell) := (keyColumns r).map row.cell

end EdgeRow

/-- A vertex is keyed on its first column. -/
def VertexRow.key {v : VertexRelation} (row : VertexRow v) : Option Cell := row.cells.head?

/-! ## Lock order -/

/-- The order of one column's values; `NULL` sorts after every value. -/
def Cell.le : Cell → Cell → Bool
  | _, .null => true
  | .null, _ => false
  | .text a, .text b => a ≤ b
  | .bigint a, .bigint b => a ≤ b
  | .text _, .bigint _ => true
  | .bigint _, .text _ => false

/-- `_edge_order`: column by column. -/
def edgeOrder : List Cell → List Cell → Bool
  | [], _ => true
  | _ :: _, [] => false
  | a :: as, b :: bs => if a = b then edgeOrder as bs else a.le b

/-- `_vertex_order`: the key alone, so the sort is stable between two spellings. -/
def vertexOrder : List Cell → List Cell → Bool
  | a :: _, b :: _ => a.le b
  | _, _ => true

/-! ## Document scope -/

def discogsSource : String := "discogs"

/-- `_DOCUMENT_SCOPE`: the column that names the asserting document, and whether the
    relation is shared with another provider. -/
def documentScope : EdgeRelation → Option (Column × Bool)
  | .byArtist | .onLabel | .derivedFrom | .inGenre | .inStyle | .creditedOn
  | .trackCreditedOn | .trackByArtist => some (.releaseId, false)
  | .creditedTo | .issuedOn => some (.releaseId, true)
  | .masterByArtist | .masterInGenre | .masterInStyle => some (.masterId, false)
  | .aliasOf => some (.artistId, false)
  | .memberOf | .sameAs => none

/-- `_PURGE_SCOPE`. -/
def purgeScope : DataType → List EdgeRelation
  | .releases => [.byArtist, .onLabel, .derivedFrom, .inGenre, .inStyle, .creditedOn, .creditedTo,
      .issuedOn, .trackCreditedOn, .trackByArtist]
  | .masters => [.masterByArtist, .masterInGenre, .masterInStyle]
  | .artists => [.aliasOf]
  | .labels => []

/-- The row is one of this loader's and names `dataId` as its document. -/
def EdgeRow.Names {r : EdgeRelation} (row : EdgeRow r) (dataId : String) : Prop :=
  match documentScope r with
  | some (column, sourceScoped) => row.cell column = some (.text dataId) ∧
      (sourceScoped = true → row.cell .source = some (.text discogsSource))
  | none => False

instance {r : EdgeRelation} (row : EdgeRow r) (dataId : String) : Decidable (row.Names dataId) :=
  match h : documentScope r with
  | some (column, sourceScoped) => decidable_of_iff
      (row.cell column = some (.text dataId) ∧
        (sourceScoped = true → row.cell .source = some (.text discogsSource)))
      (by simp [EdgeRow.Names, h])
  | none => .isFalse (by simp [EdgeRow.Names, h])

namespace EdgeRow

variable {r : EdgeRelation} {a b : EdgeRow r} {dataId other : String}

/-- Rows of one key agree on every key column. -/
theorem cell_eq_of_key (column : Column) (hcolumn : column.describes = false)
    (hkey : a.key = b.key) : a.cell column = b.cell column := by
  by_cases hmem : column ∈ edgeColumns r
  · have hkeys : column ∈ keyColumns r := List.mem_filter.2 ⟨hmem, by simp [hcolumn]⟩
    exact List.map_inj_left.1 hkey column hkeys
  · have hnone : ∀ row : EdgeRow r, row.cell column = none := by
      intro row
      rw [cell, List.lookup_eq_none_iff]
      intro pair hpair
      have hne : column ≠ pair.1 := fun h => hmem (h ▸ (List.of_mem_zip hpair).1)
      simpa using hne
    rw [hnone a, hnone b]

/-- The key of a row says which document it names. -/
theorem names_of_key (hkey : a.key = b.key) (h : a.Names dataId) : b.Names dataId := by
  have hcell : ∀ {column : Column}, column.describes = false → b.cell column = a.cell column :=
    fun hcolumn => (cell_eq_of_key _ hcolumn hkey).symm
  cases r <;> simp only [Names, documentScope] at h ⊢ <;>
    first
    | exact h.elim
    | exact ⟨(hcell rfl).trans h.1, fun hsource => (hcell rfl).trans (h.2 hsource)⟩

theorem names_injective (h : a.Names dataId) (h' : a.Names other) : dataId = other := by
  unfold Names at h h'
  split at h
  · next column sourceScoped hscope =>
    rw [hscope] at h'
    simpa using h.1.symm.trans h'.1
  · exact h.elim

theorem cells_eq_of_lookup {columns : List Column} (hnodup : columns.Nodup) :
    ∀ {xs ys : List Cell}, xs.length = columns.length → ys.length = columns.length →
      (∀ column ∈ columns, (columns.zip xs).lookup column = (columns.zip ys).lookup column) →
      xs = ys := by
  induction columns with
  | nil =>
    intro xs ys hxs hys _
    rw [List.length_nil, List.length_eq_zero_iff] at hxs hys
    rw [hxs, hys]
  | cons column columns ih =>
    intro xs ys hxs hys hlookup
    cases xs with
    | nil => cases hxs
    | cons x xs =>
      cases ys with
      | nil => cases hys
      | cons y ys =>
        have hhead := hlookup column List.mem_cons_self
        simp only [List.zip_cons_cons, List.lookup_cons_self, Option.some.injEq] at hhead
        obtain ⟨hfresh, hnodup⟩ := List.nodup_cons.1 hnodup
        have htail : xs = ys := by
          refine ih hnodup (by simpa using hxs) (by simpa using hys) fun c hc => ?_
          have hne : (c == column) = false := by
            rw [beq_eq_false_iff_ne]
            rintro rfl
            exact hfresh hc
          have htail := hlookup c (List.mem_cons_of_mem _ hc)
          simpa [List.zip_cons_cons, List.lookup_cons, hne] using htail
        rw [hhead, htail]

/-- Where every column is part of the key, a row is its key. -/
theorem key_injective (hcolumns : ∀ column ∈ edgeColumns r, column.describes = false)
    (hkey : a.key = b.key) : a = b := by
  have hnodup : (edgeColumns r).Nodup := by cases r <;> decide
  have hcells := cells_eq_of_lookup hnodup a.arity b.arity fun column hcolumn =>
    cell_eq_of_key column (hcolumns column hcolumn) hkey
  cases a; cases b; cases hcells; rfl

end EdgeRow

theorem scoped_of_mem_purgeScope {t : DataType} {r : EdgeRelation} (h : r ∈ purgeScope t) :
    documentScope r ≠ none := by
  cases t <;> cases r <;> simp_all [purgeScope, documentScope]

/-- No relation belongs to the documents of two types. -/
theorem purgeScope_disjoint {t t' : DataType} {r : EdgeRelation} (h : r ∈ purgeScope t)
    (h' : r ∈ purgeScope t') : t = t' := by
  cases t <;> cases t' <;> first | rfl | (cases r <;> simp_all [purgeScope])

/-! ## What one document asserts -/

/-- `DocumentGraph`: the rows one document asserts, and the relations whose rows for it
    are deleted first. -/
@[ext] structure DocumentGraph where
  vertices : (v : VertexRelation) → List (VertexRow v)
  edges : (r : EdgeRelation) → List (EdgeRow r)
  replaced : Finset EdgeRelation

def DocumentGraph.empty : DocumentGraph := ⟨fun _ => [], fun _ => [], ∅⟩

end Tableinator.Graph
