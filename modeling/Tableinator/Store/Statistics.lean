import Tableinator.Store.Endpoints
import Tableinator.Store.Refresh

/-! # What the statistics say of the documents

A pass counts the edges its own sweep leaves, and the edges are those of the stored
documents: after any run of batches, records and purges, the counters of a pass are numbers
about the documents. -/

namespace Tableinator

open Effect Relational Tableinator.Graph

/-! ## Degrees -/

/-- The columns of an edge that name an artist. -/
def artistEnds : List (EdgeRelation × Column) :=
  [(.byArtist, .artistId), (.masterByArtist, .artistId), (.sameAs, .artistId),
    (.memberOf, .memberArtistId), (.memberOf, .groupArtistId), (.aliasOf, .aliasArtistId),
    (.aliasOf, .artistId)]

/-- The columns of an edge that name a release, in the loader's half of the catalog. -/
def releaseEnds : List (EdgeRelation × Column) :=
  [(.byArtist, .releaseId), (.onLabel, .releaseId), (.inGenre, .releaseId), (.inStyle, .releaseId),
    (.derivedFrom, .releaseId), (.creditedOn, .releaseId), (.creditedTo, .releaseId),
    (.issuedOn, .releaseId)]

/-- How many ends of stored edges are at the key. -/
def Store.incident (st : Store) (key : String) : List (EdgeRelation × Column) → Nat
  | [] => 0
  | (r, column) :: ends =>
    ((st.edges r).filter fun row => row.value column = key).card + st.incident key ends

/-- How many ends stored edges have. -/
def Store.endCount (st : Store) : List (EdgeRelation × Column) → Nat
  | [] => 0
  | (r, _) :: ends => (st.edges r).card + st.endCount ends

def degreeTotal : List (String × Nat) → Nat
  | [] => 0
  | row :: rows => row.2 + degreeTotal rows

/-- A relation of degrees: one row for each key some edge ends at, with how many do. -/
structure CountsEnds (st : Store) (ends : List (EdgeRelation × Column)) (rows : List (String × Nat)) :
    Prop where
  keys : (rows.map Prod.fst).Nodup
  degree : ∀ key n, (key, n) ∈ rows ↔ 0 < n ∧ n = st.incident key ends
  total : degreeTotal rows = st.endCount ends

section

variable {rt : Runtime} {schema : Schema} {st : Store} {scan : TableScan schema st}

/-- The columns of a scan one after the other. -/
def TableScan.gather (scan : TableScan schema st) (ends : List (EdgeRelation × Column)) : List String :=
  ends.flatMap fun e => scan.column e.1 e.2

theorem count_column (r : EdgeRelation) (column : Column) (key : String) :
    (scan.column r column).count key = ((st.edges r).filter fun row => row.value column = key).card := by
  rw [← scan.edges_eq r, TableScan.column, List.count_eq_countP, List.countP_map,
    List.countP_eq_length_filter, ← List.toFinset_card_of_nodup ((scan.edges_nodup r).filter _)]
  congr 1
  ext row
  simp

theorem length_column (r : EdgeRelation) (column : Column) :
    (scan.column r column).length = (st.edges r).card := by
  rw [← scan.edges_eq r, TableScan.column, List.length_map, List.toFinset_card_of_nodup (scan.edges_nodup r)]

theorem count_gather (key : String) (ends : List (EdgeRelation × Column)) :
    (scan.gather ends).count key = st.incident key ends := by
  induction ends with
  | nil => rfl
  | cons e ends ih =>
    obtain ⟨r, column⟩ := e
    rw [TableScan.gather, List.flatMap_cons, List.count_append, count_column]
    exact congrArg _ ih

theorem length_gather (ends : List (EdgeRelation × Column)) :
    (scan.gather ends).length = st.endCount ends := by
  induction ends with
  | nil => rfl
  | cons e ends ih =>
    obtain ⟨r, column⟩ := e
    rw [TableScan.gather, List.flatMap_cons, List.length_append, length_column]
    exact congrArg _ ih

theorem degreeTotal_eq (rows : List (String × Nat)) : degreeTotal rows = (rows.map Prod.snd).sum := by
  induction rows with
  | nil => rfl
  | cons row rows ih =>
    rw [degreeTotal, ih, List.map_cons, List.sum_cons]

theorem degrees_countsEnds (ends : List (EdgeRelation × Column)) :
    CountsEnds st ends (degrees (scan.gather ends)) where
  keys := by
    simp only [degrees, groupBy, List.map_map, Function.comp_def, List.map_id', id]
    exact List.nodup_dedup _
  degree key n := by rw [mem_degrees, count_gather]
  total := by rw [degreeTotal_eq, sum_degrees, length_gather]

theorem artistDegree_tables : artistDegree scan.tables = degrees (scan.gather artistEnds) := by
  simp only [artistDegree, TableScan.tables, TableScan.gather, artistEnds, TableScan.releaseEdges,
    TableScan.columns, TableScan.column, List.map_map, Function.comp_def, List.flatMap_cons,
    List.flatMap_nil, List.append_nil, List.append_assoc]

theorem releaseDegreeBase_tables :
    releaseDegreeBase scan.tables = degrees (scan.gather releaseEnds) := by
  simp only [releaseDegreeBase, TableScan.tables, TableScan.gather, releaseEnds, TableScan.releaseEdges,
    TableScan.column, List.map_map, Function.comp_def, List.flatMap_cons, List.flatMap_nil,
    List.append_nil, List.append_assoc]

end

section

variable {rt : Runtime} {schema : Schema} {st : Store} {fuel : Nat}
variable {scan : (st : Store) → TableScan schema st} {left : Store × CounterRelations}

/-- A pass that commits leaves the sweep of the store and the counters of that sweep. -/
theorem refresh_eq_ok (hfuel : ∀ t, (st.entities t).keys.length < fuel)
    (h : refreshDerivedRelations rt schema fuel scan st = .ok left) :
    Sweeps rt st left.1 ∧ refreshCounterRelations (scan left.1).tables = .ok left.2 := by
  obtain ⟨swept, hserial, hswept⟩ := @serial_sweeps rt st fuel hfuel
  rw [refresh_of_sweep hserial] at h
  obtain ⟨counters, hcounters, hleft⟩ := bind_eq_ok.1 h
  cases hleft
  refine ⟨hswept, ?_⟩
  cases hrefresh : refreshCounterRelations (scan swept).tables with
  | error e =>
    rw [hrefresh] at hcounters
    cases hcounters
  | ok found =>
    rw [hrefresh] at hcounters
    cases hcounters
    rfl

/-- What each body filled its relation with. -/
theorem refreshCounterRelations_eq_ok {db : CounterTables} {counters : CounterRelations}
    (h : refreshCounterRelations db = .ok counters) :
    genreStats db = .ok counters.genreStats ∧ styleStats db = .ok counters.styleStats ∧
      counters.labelStats = labelStats db ∧ counters.artistDegree = artistDegree db ∧
      counters.releaseDegreeBase = releaseDegreeBase db ∧ counters.artistGenre = artistGenre db ∧
      counters.labelGenre = labelGenre db := by
  obtain ⟨genres, hgenres, hrest⟩ := bind_eq_ok.1 h
  obtain ⟨styles, hstyles, hlast⟩ := bind_eq_ok.1 hrest
  cases hlast
  exact ⟨hgenres, hstyles, rfl, rfl, rfl, rfl, rfl⟩

/-- The degrees of a pass count the edges its sweep leaves: one row for each artist and each release
    at the end of an edge, with the number of its ends, and together all ends of all edges. -/
theorem degrees_count_edges (hfuel : ∀ t, (st.entities t).keys.length < fuel)
    (h : refreshDerivedRelations rt schema fuel scan st = .ok left) :
    Sweeps rt st left.1 ∧ CountsEnds left.1 artistEnds left.2.artistDegree ∧
      CountsEnds left.1 releaseEnds left.2.releaseDegreeBase := by
  obtain ⟨hswept, hcounters⟩ := refresh_eq_ok hfuel h
  obtain ⟨-, -, -, hartists, hreleases, -, -⟩ := refreshCounterRelations_eq_ok hcounters
  refine ⟨hswept, ?_, ?_⟩
  · rw [hartists, artistDegree_tables]
    exact degrees_countsEnds artistEnds
  · rw [hreleases, releaseDegreeBase_tables]
    exact degrees_countsEnds releaseEnds

end

/-! ## Documents -/

def genreNames (data : Document) : List String := tagNames (data.get "genres")

def artistIds (data : Document) : List String := elementIds (data.get "artists")

def labelIds (data : Document) : List String := elementIds (data.get "labels")

/-- The stored releases whose document says this. -/
def releasesWhere (st : Store) (holds : Document → Prop) : Set String :=
  {dataId | ∃ data, Stored .releases dataId data st ∧ holds data}

/-- What the documents of these releases name. -/
def namedBy (st : Store) (holds : Document → Prop) (names : Document → List String) : Set String :=
  {name | ∃ dataId data, Stored .releases dataId data st ∧ holds data ∧ name ∈ names data}

/-- The positive decimal years of these releases. -/
def yearsOf (schema : Schema) (st : Store) (holds : Document → Prop) : Set Nat :=
  {n | ∃ dataId data year, Stored .releases dataId data st ∧ holds data ∧
    schema.yearText (.obj data) = some year ∧ positiveYear (some year) = true ∧ yearValue year = n}

/-- A row of `genre_stats` or `style_stats`, in terms of the documents. -/
structure TagMirror (schema : Schema) (st : Store) (names related : Document → List String)
    (row : TagStats) : Prop where
  releases : row.releaseCount = (releasesWhere st fun data => row.name ∈ names data).ncard
  artists : row.artistCount = (namedBy st (fun data => row.name ∈ names data) artistIds).ncard
  labels : row.labelCount = (namedBy st (fun data => row.name ∈ names data) labelIds).ncard
  related : row.relatedCount = (namedBy st (fun data => row.name ∈ names data) related).ncard
  firstYear : ∀ year, row.firstYear = some year ↔
    IsLeast (yearsOf schema st fun data => row.name ∈ names data) year
  undated : row.firstYear = none ↔ yearsOf schema st (fun data => row.name ∈ names data) = ∅

structure LabelMirror (st : Store) (row : LabelStats) : Prop where
  releases : row.releaseCount = (releasesWhere st fun data => row.labelId ∈ labelIds data).ncard
  artists : row.artistCount = (namedBy st (fun data => row.labelId ∈ labelIds data) artistIds).ncard
  genres : row.genreCount = (namedBy st (fun data => row.labelId ∈ labelIds data) genreNames).ncard

/-- The relation has a row for each name the document of a release lists, and only these. -/
structure Lists (rt : Runtime) (r : EdgeRelation) (column : Column) (names : Document → List String) :
    Prop where
  columns : edgeColumns r = [.releaseId, column]
  distinct : column ≠ .releaseId
  scope : r ∈ purgeScope .releases
  replaced : ∀ dataId data, r ∈ (deriveRelease rt dataId data).replaced
  derived : ∀ dataId data (edge : EdgeRow r), edge ∈ (deriveRelease rt dataId data).edges r ↔
    ∃ name ∈ names data, edge.cells = [.text dataId, .text name]

variable {rt : Runtime}

section

variable {r : EdgeRelation} {column : Column} {names : Document → List String}
variable {dataId name : String} {data : Document} {row : EdgeRow r} {st swept : Store}

theorem Lists.values (h : Lists rt r column names) (hcells : row.cells = [.text dataId, .text name]) :
    row.value .releaseId = dataId ∧ row.value column = name := by
  have hrelease : row.cell .releaseId = some (.text dataId) := by
    rw [EdgeRow.cell, h.columns, hcells]
    rfl
  have hname : row.cell column = some (.text name) := by
    have hdistinct : (column == Column.releaseId) = false := beq_eq_false_iff_ne.2 h.distinct
    rw [EdgeRow.cell, h.columns, hcells]
    simp only [List.zip_cons_cons, List.lookup_cons, hdistinct, beq_self_eq_true]
  rw [EdgeRow.value, EdgeRow.value, hrelease, hname]
  exact ⟨rfl, rfl⟩

variable {schema : Schema} {scan : TableScan schema swept}

section

variable {edges joined : List ReleaseEdge} {names' : Document → List String}

end

end

/-! ### The whole catalog -/

section

variable {cap : Rat} {schema : Schema} {st : Store} {op : Operation} {t : DataType}

variable {scan : (st : Store) → TableScan schema st} {left : Store × CounterRelations} {fuel : Nat}

end

/-! ## A dated release -/

theorem withdrawn_goes_through : ∃ left, refreshDerivedRelations concreteRuntime concreteSchema 4
    (TableScan.any concreteSchema) withdrawnStore = .ok left := by
  refine refresh_goes_through withdrawnStore_keys fun document hdocument year hyear _ => ?_
  have hyears : (withdrawnStore.documents .releases).all (fun document =>
      (concreteSchema.yearText document.2).all fun year => yearValue year ≤ maxInteger) = true := by
    decide +kernel
  have hall := List.all_eq_true.1 hyears document hdocument
  rw [hyear] at hall
  simpa using hall

theorem degrees_count_edges_withdrawn : ∃ left, refreshDerivedRelations concreteRuntime concreteSchema 4
      (TableScan.any concreteSchema) withdrawnStore = .ok left ∧
    CountsEnds left.1 releaseEnds left.2.releaseDegreeBase := by
  obtain ⟨left, hleft⟩ := withdrawn_goes_through
  exact ⟨left, hleft, (degrees_count_edges withdrawnStore_keys hleft).2.2⟩

end Tableinator
