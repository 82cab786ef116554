import Tableinator.Graph.Projection
import Tableinator.Store.Reload
import Tableinator.Store.Sweep

/-! # The refresh of the derived relations

`refresh_derived_relations` sweeps the additive edges and recomputes the counters from what
the sweep leaves, in one transaction.  A scan returns the rows of a relation in no
particular order, and the tables keep traces of how they were filled; the pass is a function
of neither. -/

namespace Tableinator

open Effect Relational Tableinator.Graph

/-! ## What the counters read -/

/-- The text in a column; the columns the counters read are text and `NOT NULL`. -/
def Graph.EdgeRow.value {r : EdgeRelation} (row : EdgeRow r) (column : Column) : String :=
  match row.cell column with
  | some (.text s) => s
  | _ => ""

def Graph.VertexRow.name {v : VertexRelation} (row : VertexRow v) : String :=
  match row.key with
  | some (.text s) => s
  | _ => ""

/-- What the schema owns: the text of a value that is not a string, and the view `graph.label`
    of the label documents. -/
structure Schema where
  jsonText : Json → String
  graphLabel : List (String × Json) → List String

/-- `data ->> 'year'`. -/
def Schema.yearText (schema : Schema) (data : Json) : Option String :=
  match data.field "year" with
  | .null => none
  | .str s => some s
  | value => some (schema.jsonText value)

/-- The documents of a type, by id. -/
def Store.documents (st : Store) (t : DataType) : List (String × Json) :=
  documentsOf (st.entities t).rows

/-- The rows of each relation the counters read, in the order a scan met them. -/
structure TableScan (schema : Schema) (st : Store) where
  edges : (r : EdgeRelation) → List (EdgeRow r)
  vertices : (v : VertexRelation) → List (VertexRow v)
  labels : List String
  releases : List (String × Json)
  edges_nodup : ∀ r, (edges r).Nodup
  edges_eq : ∀ r, (edges r).toFinset = st.edges r
  vertices_nodup : ∀ v, (vertices v).Nodup
  vertices_eq : ∀ v, (vertices v).toFinset = st.vertices v
  labels_perm : labels.Perm (schema.graphLabel (st.documents .labels))
  releases_perm : releases.Perm (st.documents .releases)

namespace TableScan

variable {schema : Schema} {st st' : Store} (scan : TableScan schema st) (scan' : TableScan schema st')

def column (r : EdgeRelation) (column : Column) : List String :=
  (scan.edges r).map fun row => row.value column

def columns (r : EdgeRelation) (first second : Column) : List (String × String) :=
  (scan.edges r).map fun row => (row.value first, row.value second)

def names (v : VertexRelation) : List String := (scan.vertices v).map VertexRow.name

/-- The edges of releases in a relation. -/
def releaseEdges (r : EdgeRelation) (target : Column) : List ReleaseEdge :=
  (scan.edges r).map fun row => ⟨row.value .releaseId, row.value target⟩

/-- The tables as the bodies of the counters read them. -/
def tables : CounterTables where
  genre := scan.names .genre
  style := scan.names .style
  label := scan.labels
  inGenre := scan.releaseEdges .inGenre .genreName
  inStyle := scan.releaseEdges .inStyle .styleName
  byArtist := scan.releaseEdges .byArtist .artistId
  onLabel := scan.releaseEdges .onLabel .labelId
  masterByArtist := scan.column .masterByArtist .artistId
  sameAs := scan.column .sameAs .artistId
  memberOf := scan.columns .memberOf .memberArtistId .groupArtistId
  aliasOf := scan.columns .aliasOf .aliasArtistId .artistId
  derivedFrom := scan.column .derivedFrom .releaseId
  creditedOn := scan.column .creditedOn .releaseId
  creditedTo := scan.column .creditedTo .releaseId
  issuedOn := scan.column .issuedOn .releaseId
  releases := scan.releases.map fun release => ⟨release.1, schema.yearText release.2⟩

variable {scan scan'}

theorem edges_perm {r : EdgeRelation} (h : st.edges r = st'.edges r) :
    (scan.edges r).Perm (scan'.edges r) := by
  apply List.perm_of_nodup_nodup_toFinset_eq (scan.edges_nodup r) (scan'.edges_nodup r)
  rw [scan.edges_eq, scan'.edges_eq, h]

theorem column_perm {r : EdgeRelation} {read : Column} (h : st.edges r = st'.edges r) :
    (scan.column r read).Perm (scan'.column r read) := (edges_perm h).map _

theorem columns_perm {r : EdgeRelation} {first second : Column} (h : st.edges r = st'.edges r) :
    (scan.columns r first second).Perm (scan'.columns r first second) := (edges_perm h).map _

theorem releaseEdges_perm {r : EdgeRelation} {target : Column} (h : st.edges r = st'.edges r) :
    (scan.releaseEdges r target).Perm (scan'.releaseEdges r target) := (edges_perm h).map _

theorem names_perm {v : VertexRelation} (h : st.vertices v = st'.vertices v) :
    (scan.names v).Perm (scan'.names v) := by
  apply List.Perm.map
  apply List.perm_of_nodup_nodup_toFinset_eq (scan.vertices_nodup v) (scan'.vertices_nodup v)
  rw [scan.vertices_eq, scan'.vertices_eq, h]

/-- Scans of the same edges, tags and documents are the same tables. -/
theorem tables_reorders (hedges : ∀ r, st.edges r = st'.edges r)
    (hgenre : st.vertices .genre = st'.vertices .genre) (hstyle : st.vertices .style = st'.vertices .style)
    (hdocuments : ∀ t, st.documents t = st'.documents t) : scan.tables.Reorders scan'.tables where
  genre := names_perm hgenre
  style := names_perm hstyle
  label := by
    have hlabels := scan'.labels_perm.symm
    rw [← hdocuments] at hlabels
    exact scan.labels_perm.trans hlabels
  inGenre := releaseEdges_perm (hedges _)
  inStyle := releaseEdges_perm (hedges _)
  byArtist := releaseEdges_perm (hedges _)
  onLabel := releaseEdges_perm (hedges _)
  masterByArtist := column_perm (hedges _)
  sameAs := column_perm (hedges _)
  memberOf := columns_perm (hedges _)
  aliasOf := columns_perm (hedges _)
  derivedFrom := column_perm (hedges _)
  creditedOn := column_perm (hedges _)
  creditedTo := column_perm (hedges _)
  issuedOn := column_perm (hedges _)
  releases := by
    have hreleases := scan'.releases_perm.symm
    rw [← hdocuments] at hreleases
    exact (scan.releases_perm.trans hreleases).map _

end TableScan

/-! ## The pass -/

inductive RefreshError where
  | sweep (error : WriteError)
  | counters (error : SqlError)

section

variable (rt : Runtime) (schema : Schema)

/-- `refresh_derived_relations`: what either part raises rolls both back. -/
def refreshDerivedRelations (fuel : Nat) (scan : (st : Store) → TableScan schema st) (st : Store) :
    Except RefreshError (Store × CounterRelations) := do
  let swept ← ((reconcileAdditiveEdges rt fuel).serial engine.alone st).mapError .sweep
  let counters ← (refreshCounterRelations (scan swept.2).tables).mapError .counters
  return (swept.2, counters)

/-- A document the page loop reaches asserts the row; the loop starts after the empty id. -/
def ReachedIn (a : AdditiveRelation) (st : Store) (edge : EdgeRow a.relation) : Prop :=
  ∃ dataId row, (st.entities a.table).lookup dataId = some row ∧ a.selects row.data = true ∧
    "" < dataId ∧ edge ∈ asserts rt a dataId row.data

/-- What the sweep leaves in an additive relation; it skips one whose documents are missing. -/
def SweptIn (a : AdditiveRelation) (st : Store) (edge : EdgeRow a.relation) : Prop :=
  if (st.entities a.table).rows = [] then edge ∈ st.edges a.relation else ReachedIn rt a st edge

/-- What the sweep makes of a store. -/
structure Sweeps (st st' : Store) : Prop where
  entities : st'.entities = st.entities
  vertices : st'.vertices = st.vertices
  others : ∀ r, (∀ a : AdditiveRelation, r ≠ a.relation) → st'.edges r = st.edges r
  additive : ∀ a (edge : EdgeRow a.relation), edge ∈ st'.edges a.relation ↔ SweptIn rt a st edge

end

/-- The same documents, tags and document edges: the hashes, the times, the rows the sweep decides
    on and the other vertices may differ. -/
structure SameCatalog (st st' : Store) : Prop where
  documents : ∀ t, st.documents t = st'.documents t
  genre : st.vertices .genre = st'.vertices .genre
  style : st.vertices .style = st'.vertices .style
  edges : ∀ r, (∀ a : AdditiveRelation, r ≠ a.relation) → st.edges r = st'.edges r
  /-- An empty source table leaves its relation as it was. -/
  unswept : ∀ a : AdditiveRelation, st.documents a.table = [] →
    st.edges a.relation = st'.edges a.relation

/-- What two passes leave: the same edges, and counters with the same rows. -/
structure SamePass (x y : Store × CounterRelations) : Prop where
  edges : x.1.edges = y.1.edges
  counters : x.2.Reorders y.2

variable {rt : Runtime} {schema : Schema} {a : AdditiveRelation} {st st' mid : Store} {t : DataType}

theorem mem_documents {dataId : String} {data : Json} : (dataId, data) ∈ st.documents t ↔
    ∃ row, (st.entities t).lookup dataId = some row ∧ row.data = data := by
  simp only [Store.documents, mem_documentsOf, Table.mem_rows]

theorem documents_eq_nil : st.documents t = [] ↔ (st.entities t).rows = [] := List.map_eq_nil_iff

theorem reachedIn_iff {edge : EdgeRow a.relation} : ReachedIn rt a st edge ↔
    ∃ document ∈ st.documents a.table, a.selects document.2 = true ∧ "" < document.1 ∧
      edge ∈ asserts rt a document.1 document.2 := by
  constructor
  · intro h
    obtain ⟨dataId, row, hrow, hreached⟩ := h
    exact ⟨(dataId, row.data), mem_documents.2 ⟨row, hrow, rfl⟩, hreached⟩
  · intro h
    obtain ⟨⟨dataId, data⟩, hmem, hreached⟩ := h
    obtain ⟨row, hrow, rfl⟩ := mem_documents.1 hmem
    exact ⟨dataId, row, hrow, hreached⟩

theorem sweptIn_congr (h : SameCatalog st st') {edge : EdgeRow a.relation} :
    SweptIn rt a st edge ↔ SweptIn rt a st' edge := by
  unfold SweptIn
  simp only [← documents_eq_nil, ← h.documents a.table]
  split
  · next hempty => rw [h.unswept a hempty]
  · rw [reachedIn_iff, reachedIn_iff, h.documents]

theorem sweptIn_of_unchanged (hentities : st'.entities = st.entities)
    (hedges : st'.edges a.relation = st.edges a.relation) {edge : EdgeRow a.relation} :
    SweptIn rt a st' edge ↔ SweptIn rt a st edge := by
  simp only [SweptIn, ReachedIn, hentities, hedges]

/-! ### The sweep -/

/-- Run alone, the sweep of one relation settles that relation and leaves the rest. -/
theorem serial_sweepRelation {fuel : Nat} (hfuel : (st.entities a.table).keys.length < fuel) :
    ∃ st', (reconcileRelation rt fuel a).serial engine.alone st = .ok (⟨⟩, st') ∧
      st'.entities = st.entities ∧ st'.vertices = st.vertices ∧
      (∀ r, r ≠ a.relation → st'.edges r = st.edges r) ∧
      ∀ edge, edge ∈ st'.edges a.relation ↔ SweptIn rt a st edge := by
  have hcount : (Statement.countRows a.table).read st = 0 ↔ (st.entities a.table).rows = [] := by
    simp [Statement.read]
  rw [reconcileRelation, Program.serial_bind, Program.serial_await]
  show ∃ st', Program.serial _ (if (Statement.countRows a.table).read st = 0 then _ else _) st = _ ∧ _
  by_cases hrows : (st.entities a.table).rows = []
  · rw [if_pos (hcount.2 hrows)]
    refine ⟨st, rfl, rfl, rfl, fun _ _ => rfl, fun edge => ?_⟩
    simp [SweptIn, hrows]
  · have hafter : ((st.entities a.table).after (fun row => a.selects row.data) "").length < fuel := by
      refine lt_of_le_of_lt ?_ hfuel
      exact (List.length_filter_le _ _).trans (List.length_filterMap_le _ _)
    obtain ⟨asserted, hpages, hasserted⟩ := @serial_assertedPages_reads rt a st fuel "" hafter
    rw [if_neg (fun h => hrows (hcount.1 h)), Program.serial_bind, hpages]
    refine ⟨reconciled a asserted st, rfl, rfl, rfl, fun r hr => edges_reconciled hr, fun edge => ?_⟩
    simp only [SweptIn, hrows, if_false]
    exact mem_reconciled.trans (hasserted edge)

/-- Run alone, the sweep leaves what the documents assert and nothing else. -/
theorem serial_sweeps {fuel : Nat} (hfuel : ∀ t, (st.entities t).keys.length < fuel) :
    ∃ st', (reconcileAdditiveEdges rt fuel).serial engine.alone st = .ok (⟨⟩, st') ∧ Sweeps rt st st' := by
  obtain ⟨mid, hmembers, hentities, hvertices, hothers, hmember⟩ :=
    @serial_sweepRelation rt .memberOf st fuel (hfuel _)
  obtain ⟨st', hpersons, hentities', hvertices', hothers', hperson⟩ :=
    @serial_sweepRelation rt .sameAs mid fuel (hentities ▸ hfuel _)
  refine ⟨st', ?_, ?_⟩
  · rw [reconcileAdditiveEdges, Program.serial_bind, hmembers]
    exact hpersons
  constructor
  case entities => exact hentities'.trans hentities
  case vertices => exact hvertices'.trans hvertices
  case others =>
    intro r hr
    rw [hothers' r (hr .sameAs), hothers r (hr .memberOf)]
  case additive =>
    intro a edge
    cases a with
    | memberOf =>
      have hother : st'.edges .memberOf = mid.edges .memberOf := hothers' .memberOf (by decide)
      exact (iff_of_eq (congrArg (edge ∈ ·) hother)).trans (hmember edge)
    | sameAs =>
      -- The first relation's sweep changed neither the releases nor this relation.
      have hother : mid.edges .sameAs = st.edges .sameAs := hothers .sameAs (by decide)
      exact (hperson edge).trans (@sweptIn_of_unchanged rt .sameAs st mid hentities hother edge)

/-! ### Two passes -/

theorem mapError_bind_sweep {x : Except WriteError (PUnit × Store)} {swept : Store}
    {f : PUnit × Store → Except RefreshError (Store × CounterRelations)} (h : x = .ok (⟨⟩, swept)) :
    (x.mapError RefreshError.sweep >>= f) = f (⟨⟩, swept) := by
  rw [h]
  rfl

theorem sameOutcome_counters {x y : Except SqlError CounterRelations} {swept swept' : Store}
    (h : SameOutcome CounterRelations.Reorders x y) (hedges : swept.edges = swept'.edges) :
    SameOutcome SamePass
      (x.mapError RefreshError.counters >>= fun counters => pure (swept, counters))
      (y.mapError RefreshError.counters >>= fun counters => pure (swept', counters)) := by
  cases x with
  | error e =>
    cases y with
    | error e' => exact congrArg RefreshError.counters h
    | ok counters' => exact h.elim
  | ok counters =>
    cases y with
    | error e' => exact h.elim
    | ok counters' => exact ⟨hedges, h⟩

/-- The sweeps of two stores with the same catalog leave the same edges. -/
theorem edges_of_sweeps {swept swept' : Store} (hsame : SameCatalog st st')
    (hswept : Sweeps rt st swept) (hswept' : Sweeps rt st' swept') : swept.edges = swept'.edges := by
  funext r
  by_cases hadditive : ∃ a : AdditiveRelation, r = a.relation
  · obtain ⟨a, rfl⟩ := hadditive
    ext edge
    rw [hswept.additive, hswept'.additive, sweptIn_congr hsame]
  · have hother : ∀ a : AdditiveRelation, r ≠ a.relation := fun a hr => hadditive ⟨a, hr⟩
    rw [hswept.others r hother, hswept'.others r hother, hsame.edges r hother]

theorem documents_of_entities (h : st'.entities = st.entities) (t : DataType) :
    st'.documents t = st.documents t := by
  rw [Store.documents, h, Store.documents]

/-- What the sweep leaves is the catalog it found. -/
theorem Sweeps.sameCatalog (h : Sweeps rt st st') : SameCatalog st st' where
  documents t := (documents_of_entities h.entities t).symm
  genre := by rw [h.vertices]
  style := by rw [h.vertices]
  edges r hr := (h.others r hr).symm
  unswept a hempty := by
    ext edge
    rw [h.additive, SweptIn, if_pos (documents_eq_nil.1 hempty)]

/-- The pass, once its sweep is known. -/
theorem refresh_of_sweep {fuel : Nat} {scan : (st : Store) → TableScan schema st} {swept : Store}
    (h : (reconcileAdditiveEdges rt fuel).serial engine.alone st = .ok (⟨⟩, swept)) :
    refreshDerivedRelations rt schema fuel scan st =
      ((refreshCounterRelations (scan swept).tables).mapError .counters >>= fun counters =>
        pure (swept, counters)) :=
  mapError_bind_sweep h

/-- The counters go through wherever the years fit an integer. -/
theorem refreshCounterRelations_of_range {db : CounterTables} (hgenre : EdgesInRange db db.inGenre)
    (hstyle : EdgesInRange db db.inStyle) : ∃ counters, refreshCounterRelations db = .ok counters := by
  have hgenres := (@tagStats_isOk db db.inGenre db.inStyle db.genre).2 hgenre
  have hstyles := (@tagStats_isOk db db.inStyle db.inGenre db.style).2 hstyle
  unfold refreshCounterRelations genreStats styleStats
  cases hgenreRows : tagStats db db.genre db.inGenre db.inStyle with
  | error e =>
    rw [hgenreRows] at hgenres
    cases hgenres
  | ok genres =>
    cases hstyleRows : tagStats db db.style db.inStyle db.inGenre with
    | error e =>
      rw [hstyleRows] at hstyles
      cases hstyles
    | ok styles => exact ⟨_, rfl⟩

/-- A pass goes through wherever the years of the stored releases fit an integer. -/
theorem refresh_goes_through {fuel : Nat} {scan : (st : Store) → TableScan schema st}
    (hfuel : ∀ t, (st.entities t).keys.length < fuel)
    (hyears : ∀ document ∈ st.documents .releases, ∀ year, schema.yearText document.2 = some year →
      positiveYear (some year) = true → yearValue year ≤ maxInteger) :
    ∃ left, refreshDerivedRelations rt schema fuel scan st = .ok left := by
  obtain ⟨swept, hserial, hswept⟩ := @serial_sweeps rt st fuel hfuel
  have hrange : ∀ edges, EdgesInRange (scan swept).tables edges := by
    intro edges edge _ release hrelease _ year hyear hpositive
    obtain ⟨document, hdocument, rfl⟩ := List.mem_map.1 hrelease
    rw [(scan swept).releases_perm.mem_iff, documents_of_entities hswept.entities] at hdocument
    exact hyears document hdocument year hyear hpositive
  obtain ⟨counters, hcounters⟩ := refreshCounterRelations_of_range (hrange _) (hrange _)
  rw [refresh_of_sweep hserial, hcounters]
  exact ⟨(swept, counters), rfl⟩

/-- Passes over two stores with the same catalog end alike, whatever orders their scans return. -/
theorem refresh_sameOutcome {fuel fuel' : Nat} {scan scan' : (st : Store) → TableScan schema st}
    (hsame : SameCatalog st st') (hfuel : ∀ t, (st.entities t).keys.length < fuel)
    (hfuel' : ∀ t, (st'.entities t).keys.length < fuel') :
    SameOutcome SamePass (refreshDerivedRelations rt schema fuel scan st)
      (refreshDerivedRelations rt schema fuel' scan' st') := by
  obtain ⟨swept, hserial, hswept⟩ := @serial_sweeps rt st fuel hfuel
  obtain ⟨swept', hserial', hswept'⟩ :=
    @serial_sweeps rt st' fuel' hfuel'
  have hedges : swept.edges = swept'.edges := edges_of_sweeps hsame hswept hswept'
  rw [refresh_of_sweep hserial, refresh_of_sweep hserial']
  refine sameOutcome_counters (refreshCounterRelations_perm ?_) hedges
  apply TableScan.tables_reorders
  · intro r
    rw [hedges]
  · rw [hswept.vertices, hswept'.vertices, hsame.genre]
  · rw [hswept.vertices, hswept'.vertices, hsame.style]
  · intro t
    rw [documents_of_entities hswept.entities, documents_of_entities hswept'.entities, hsame.documents]

/-- The pass is a function of the documents, their tags and their edges, the additive ones only where
    the sweep skips them: wherever two stores agree on these, either both passes raise and change
    nothing, or both leave the same edges and the same rows in every counter.  A pass right after
    another one changes nothing. -/
theorem refresh_is_determined {fuel fuel' : Nat} {scan scan' : (st : Store) → TableScan schema st}
    (hsame : SameCatalog st st') (hfuel : ∀ t, (st.entities t).keys.length < fuel)
    (hfuel' : ∀ t, (st'.entities t).keys.length < fuel') :
    SameOutcome SamePass (refreshDerivedRelations rt schema fuel scan st)
        (refreshDerivedRelations rt schema fuel' scan' st') ∧
      ∀ left, refreshDerivedRelations rt schema fuel scan st = .ok left →
        ∃ again, refreshDerivedRelations rt schema fuel scan' left.1 = .ok again ∧ SamePass left again := by
  refine ⟨refresh_sameOutcome hsame hfuel hfuel', fun left hleft => ?_⟩
  obtain ⟨swept, hserial, hswept⟩ := @serial_sweeps rt st fuel hfuel
  have hstore : left.1 = swept := by
    rw [refresh_of_sweep hserial] at hleft
    obtain ⟨counters, -, hcounters⟩ := bind_eq_ok.1 hleft
    cases hcounters
    rfl
  have houtcome : SameOutcome SamePass (refreshDerivedRelations rt schema fuel scan st)
      (refreshDerivedRelations rt schema fuel scan' swept) := by
    refine refresh_sameOutcome hswept.sameCatalog hfuel fun t => ?_
    rw [hswept.entities]
    exact hfuel t
  rw [hleft] at houtcome
  rw [hstore]
  cases hagain : refreshDerivedRelations rt schema fuel scan' swept with
  | error e =>
    rw [hagain] at houtcome
    exact houtcome.elim
  | ok again =>
    rw [hagain] at houtcome
    exact ⟨again, rfl, houtcome⟩

/-! ### A member that is withdrawn -/

/-- The rows in some order. -/
noncomputable def TableScan.any (schema : Schema) (st : Store) : TableScan schema st where
  edges r := (st.edges r).toList
  vertices v := (st.vertices v).toList
  labels := schema.graphLabel (st.documents .labels)
  releases := st.documents .releases
  edges_nodup r := (st.edges r).nodup_toList
  edges_eq r := (st.edges r).toList_toFinset
  vertices_nodup v := (st.vertices v).nodup_toList
  vertices_eq v := (st.vertices v).toList_toFinset
  labels_perm := List.Perm.refl _
  releases_perm := List.Perm.refl _

def concreteSchema : Schema where
  jsonText
    | .int n => toString n
    | _ => ""
  graphLabel labels := labels.map Prod.fst

/-- The member is withdrawn again, and the writer cannot delete its row. -/
def withdrawnSteps : List (Operation × Bool) :=
  [(.persistRecord 1 .artists "1" [("sha256", .str "a"), ("members", .arr [.obj [("id", .str "2")]])], true),
    (.persistRecord 2 .artists "1" [("sha256", .str "b")], true),
    (.persistRecord 3 .releases "7"
      [("sha256", .str "c"), ("genres", .arr [.str "Rock"]), ("year", .int 1985)], true)]

/-- The same documents, in another order, without the detour. -/
def directSteps : List (Operation × Bool) :=
  [(.persistRecord 5 .releases "7"
      [("sha256", .str "c"), ("genres", .arr [.str "Rock"]), ("year", .int 1985)], true),
    (.persistRecord 9 .artists "1" [("sha256", .str "b")], true)]

def withdrawnStore : Store := runOperations concreteRuntime 1 withdrawnSteps

def directStore : Store := runOperations concreteRuntime 1 directSteps

theorem withdrawn_sameCatalog : SameCatalog withdrawnStore directStore where
  documents t := by cases t <;> with_unfolding_all rfl
  genre := by decide +kernel
  style := by decide +kernel
  edges r hr := by
    cases r with
    | memberOf => exact absurd rfl (hr .memberOf)
    | sameAs => exact absurd rfl (hr .sameAs)
    | _ => decide +kernel
  unswept a hempty := by
    cases a with
    | memberOf => exact absurd (congrArg List.length hempty) (by decide +kernel)
    | sameAs => exact absurd (congrArg List.length hempty) (by decide +kernel)

theorem withdrawnStore_keys (t : DataType) : (withdrawnStore.entities t).keys.length < 4 := by
  cases t <;> decide +kernel

theorem refresh_is_determined_withdrawn :
    withdrawnStore.edges .memberOf ≠ directStore.edges .memberOf ∧
      SameOutcome SamePass
        (refreshDerivedRelations concreteRuntime concreteSchema 4 (TableScan.any concreteSchema) withdrawnStore)
        (refreshDerivedRelations concreteRuntime concreteSchema 4 (TableScan.any concreteSchema) directStore) := by
  refine ⟨by decide +kernel, (refresh_is_determined withdrawn_sameCatalog withdrawnStore_keys ?_).1⟩
  intro t
  cases t <;> decide +kernel

end Tableinator
