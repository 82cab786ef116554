import Tableinator.Store.Serial

/-! # Replacing the graph rows of a set of documents

`write_document_graph` with nothing else running.  What it leaves is a function of the
tables it met: the vertices with the derived ones added, and the edges with every row a
document replaces exchanged for the rows it derives.  A row of a scoped relation names
its document, so no document deletes or displaces the rows of another; that is why one
delete and one insert a relation do for the whole list. -/

namespace Tableinator

open Effect Relational Tableinator.Graph

/-! ## The graph rows of a set of documents -/

section

variable (rt : Runtime) (t : DataType)

/-- The row names one of the documents, in a relation it replaces. -/
def Superseded {r : EdgeRelation} (documents : List (String × Document)) (row : EdgeRow r) : Prop :=
  ∃ document ∈ documents, r ∈ (deriveDocument rt t document.1 document.2).replaced ∧
    row.Names document.1

instance {r : EdgeRelation} (documents : List (String × Document)) (row : EdgeRow r) :
    Decidable (Superseded rt t documents row) :=
  inferInstanceAs (Decidable (∃ document ∈ documents,
    r ∈ (deriveDocument rt t document.1 document.2).replaced ∧ row.Names document.1))

def derivedVertices (v : VertexRelation) (documents : List (String × Document)) : List (VertexRow v) :=
  documents.flatMap fun document => (deriveDocument rt t document.1 document.2).vertices v

def derivedEdges (r : EdgeRelation) (documents : List (String × Document)) : List (EdgeRow r) :=
  documents.flatMap fun document => (deriveDocument rt t document.1 document.2).edges r

def withVertices (documents : List (String × Document))
    (vertices : (v : VertexRelation) → Finset (VertexRow v)) (v : VertexRelation) :
    Finset (VertexRow v) :=
  insertAll VertexRow.key (vertices v) (derivedVertices rt t v documents)

def withEdges (documents : List (String × Document)) (edges : (r : EdgeRelation) → Finset (EdgeRow r))
    (r : EdgeRelation) : Finset (EdgeRow r) :=
  insertAll EdgeRow.key ((edges r).filter fun row => ¬Superseded rt t documents row)
    (derivedEdges rt t r documents)

end

variable {rt : Runtime} {t t' : DataType} {st st' : Store}

section

variable {documents : List (String × Document)}

theorem cell_le_refl (a : Cell) : a.le a = true := by
  cases a <;> simp [Cell.le]

/-- The lock order does not tell two spellings of one vertex apart. -/
theorem vertexOrder_of_key {v : VertexRelation} {a b : VertexRow v} (h : a.key = b.key) :
    vertexOrder a.cells b.cells = true := by
  obtain ⟨cells, harity⟩ := a
  obtain ⟨cells', harity'⟩ := b
  cases cells with
  | nil => rfl
  | cons cell cells =>
    cases cells' with
    | nil => rfl
    | cons cell' cells' =>
      have hcell : cell = cell' := by simpa [VertexRow.key] using h
      subst hcell
      exact cell_le_refl cell

theorem insertAll_vertexRows (v : VertexRelation) (vertices : Finset (VertexRow v)) :
    insertAll VertexRow.key vertices (vertexRows rt t documents v) =
      insertAll VertexRow.key vertices (derivedVertices rt t v documents) := by
  have hrows : (derivedGraphs rt t documents).flatMap (fun entry => entry.2.vertices v) =
      derivedVertices rt t v documents := by
    simp [derivedGraphs, derivedVertices, List.flatMap_map]
  rw [vertexRows, insertAll_insertionSort fun a b => vertexOrder_of_key, insertAll_unique, hrows]

theorem mem_derivedEdges {r : EdgeRelation} {edge : EdgeRow r} :
    edge ∈ derivedEdges rt t r documents ↔ ∃ dataId data, (dataId, data) ∈ documents ∧
      edge ∈ (deriveDocument rt t dataId data).edges r := by
  simp [derivedEdges]

/-- Documents of different ids derive different rows, or the same one. -/
theorem derivedEdges_key_injective (hids : (documents.map Prod.fst).Nodup) {r : EdgeRelation}
    {a b : EdgeRow r} (ha : a ∈ derivedEdges rt t r documents) (hb : b ∈ derivedEdges rt t r documents)
    (hkey : a.key = b.key) : a = b := by
  obtain ⟨dataId, data, hmem, ha⟩ := mem_derivedEdges.1 ha
  obtain ⟨dataId', data', hmem', hb⟩ := mem_derivedEdges.1 hb
  by_cases hscope : documentScope r = none
  · have hadditive : ∀ column ∈ edgeColumns r, column.describes = false := by
      cases r <;> first | decide | cases hscope
    exact EdgeRow.key_injective hadditive hkey
  · have hid : dataId = dataId' := EdgeRow.names_injective
      (EdgeRow.names_of_key hkey (names_of_derived hscope ha)) (names_of_derived hscope hb)
    have hsame : (dataId, data) = (dataId', data') := List.inj_on_of_nodup_map hids hmem hmem' hid
    cases hsame
    exact derived_key_injective ha hb hkey

theorem insertAll_edgeRows (hids : (documents.map Prod.fst).Nodup) (r : EdgeRelation)
    (edges : Finset (EdgeRow r)) :
    insertAll EdgeRow.key edges (edgeRows rt t documents r) =
      insertAll EdgeRow.key edges (derivedEdges rt t r documents) := by
  have hmem : ∀ row, row ∈ derivedEdges rt t r documents ↔ row ∈ edgeRows rt t documents r :=
    fun row => mem_derivedEdges.trans mem_edgeRows.symm
  exact (insertAll_of_mem_iff hmem fun a ha b hb => derivedEdges_key_injective hids ha hb).symm

theorem superseded_iff {r : EdgeRelation} {row : EdgeRow r} : Superseded rt t documents row ↔
    ∃ dataId ∈ replacedIds rt t documents r, row.Names dataId := by
  constructor
  · rintro ⟨⟨dataId, data⟩, hmem, hreplaced, hnames⟩
    exact ⟨dataId, mem_replacedIds.2 ⟨data, hmem, hreplaced⟩, hnames⟩
  · rintro ⟨dataId, hids, hnames⟩
    obtain ⟨data, hmem, hreplaced⟩ := mem_replacedIds.1 hids
    exact ⟨(dataId, data), hmem, hreplaced, hnames⟩

/-! ### The statements -/

theorem alone_insertVertices (v : VertexRelation) (rows : List (VertexRow v)) (st : Store) :
    (engine.alone (.insertVertices v rows) st).2 =
      { st with vertices := Function.update st.vertices v (insertAll VertexRow.key (st.vertices v) rows) } :=
  rfl

theorem alone_insertEdges (r : EdgeRelation) (rows : List (EdgeRow r)) (st : Store) :
    (engine.alone (.insertEdges r rows) st).2 =
      { st with edges := Function.update st.edges r (insertAll EdgeRow.key (st.edges r) rows) } :=
  rfl

theorem alone_deleteScoped (r : EdgeRelation) (ids : List String) (st : Store) :
    (engine.alone (.deleteScoped r ids) st).2 = { st with
      edges := Function.update st.edges r
        ((st.edges r).filter fun row => ¬∃ dataId ∈ ids, row.Names dataId) } := by
  have hfilter : (st.edges r).filter (fun row => Statement.doomed st ∅ r
        (fun row => ids.any fun dataId => row.Names dataId) row = false) =
      (st.edges r).filter fun row => ¬∃ dataId ∈ ids, row.Names dataId := by
    refine Finset.filter_congr fun row hrow => ?_
    simp [Statement.doomed, hrow]
  show Change.apply st (.prune r _) = _
  simp only [Change.apply, hfilter]

theorem foldl_insertVertices (rows : ∀ v, List (VertexRow v)) (relations : List VertexRelation)
    (st : Store) :
    relations.foldl (fun st v => (engine.alone (.insertVertices v (rows v)) st).2) st = { st with
      vertices := relations.foldl (fun vertices v =>
        Function.update vertices v (insertAll VertexRow.key (vertices v) (rows v))) st.vertices } :=
  List.foldl_hom (fun vertices => { st with vertices := vertices }) fun vertices v =>
    alone_insertVertices v (rows v) { st with vertices := vertices }

theorem foldl_insertEdges (rows : ∀ r, List (EdgeRow r)) (relations : List EdgeRelation) (st : Store) :
    relations.foldl (fun st r => (engine.alone (.insertEdges r (rows r)) st).2) st = { st with
      edges := relations.foldl (fun edges r =>
        Function.update edges r (insertAll EdgeRow.key (edges r) (rows r))) st.edges } :=
  List.foldl_hom (fun edges => { st with edges := edges }) fun edges r =>
    alone_insertEdges r (rows r) { st with edges := edges }

theorem foldl_deleteScoped (ids : EdgeRelation → List String) (relations : List EdgeRelation)
    (st : Store) :
    relations.foldl (fun st r => (engine.alone (.deleteScoped r (ids r)) st).2) st = { st with
      edges := relations.foldl (fun edges r => Function.update edges r
        ((edges r).filter fun row => ¬∃ dataId ∈ ids r, row.Names dataId)) st.edges } :=
  List.foldl_hom (fun edges => { st with edges := edges }) fun edges r =>
    alone_deleteScoped r (ids r) { st with edges := edges }

theorem insertedVertices (v : VertexRelation) (vertices : (v : VertexRelation) → Finset (VertexRow v)) :
    (vertexRelations.filter fun v => vertexRows rt t documents v ≠ []).foldl (fun vertices v =>
        Function.update vertices v
          (insertAll VertexRow.key (vertices v) (vertexRows rt t documents v))) vertices v =
      withVertices rt t documents vertices v := by
  rw [foldl_update (fun v (vertices : Finset (VertexRow v)) =>
    insertAll VertexRow.key vertices (vertexRows rt t documents v)) (vertexRelations_nodup.filter _),
    withVertices, ← insertAll_vertexRows]
  split
  · rfl
  · next hnot =>
    have hnone : vertexRows rt t documents v = [] := by simpa using hnot
    rw [hnone, insertAll_nil]

theorem insertedEdges (r : EdgeRelation) (edges : (r : EdgeRelation) → Finset (EdgeRow r)) :
    (edgeRelations.filter fun r => edgeRows rt t documents r ≠ []).foldl (fun edges r =>
        Function.update edges r (insertAll EdgeRow.key (edges r) (edgeRows rt t documents r))) edges r =
      insertAll EdgeRow.key (edges r) (edgeRows rt t documents r) := by
  rw [foldl_update (fun r (edges : Finset (EdgeRow r)) =>
    insertAll EdgeRow.key edges (edgeRows rt t documents r)) (edgeRelations_nodup.filter _)]
  split
  · rfl
  · next hnot =>
    have hnone : edgeRows rt t documents r = [] := by simpa using hnot
    rw [hnone, insertAll_nil]

/-- The deletes reach every relation a document replaces, and no row of the others. -/
theorem deletedEdges (r : EdgeRelation) (edges : (r : EdgeRelation) → Finset (EdgeRow r)) :
    (replacedOrder.filter fun r => replacedIds rt t documents r ≠ []).foldl (fun edges r =>
        Function.update edges r ((edges r).filter fun row =>
          ¬∃ dataId ∈ replacedIds rt t documents r, row.Names dataId)) edges r =
      (edges r).filter fun row => ¬Superseded rt t documents row := by
  have hcongr : (edges r).filter (fun row => ¬∃ dataId ∈ replacedIds rt t documents r, row.Names dataId) =
      (edges r).filter fun row => ¬Superseded rt t documents row :=
    Finset.filter_congr fun row _ => not_congr superseded_iff.symm
  rw [foldl_update (fun r (edges : Finset (EdgeRow r)) => edges.filter fun row =>
    ¬∃ dataId ∈ replacedIds rt t documents r, row.Names dataId) (replacedOrder_nodup.filter _)]
  split
  · exact hcongr
  · next hnot =>
    rw [← hcongr, Finset.filter_true_of_mem]
    rintro row _ ⟨dataId, hid, hnames⟩
    have hscope : documentScope r ≠ none := by
      intro hnone
      simp [EdgeRow.Names, hnone] at hnames
    refine hnot (List.mem_filter.2 ⟨mem_replacedOrder hscope, ?_⟩)
    simpa using List.ne_nil_of_mem hid

/-- `write_document_graph` with nothing else running. -/
theorem serial_writeDocumentGraph (hids : (documents.map Prod.fst).Nodup) (st : Store) :
    (writeDocumentGraph rt t documents).serial engine.alone st = .ok (⟨⟩,
      { st with
        vertices := withVertices rt t documents st.vertices
        edges := withEdges rt t documents st.edges }) := by
  simp only [writeDocumentGraph, Program.serial_bind, Program.serial_forM_await,
    foldl_insertVertices, foldl_deleteScoped, foldl_insertEdges]
  congr 3
  · funext v
    exact insertedVertices v st.vertices
  · funext r
    rw [insertedEdges, deletedEdges, insertAll_edgeRows hids]
    rfl

/-! ### One list of documents after another -/

section

variable {first rest : List (String × Document)}

theorem withVertices_append (vertices : (v : VertexRelation) → Finset (VertexRow v)) :
    withVertices rt t (first ++ rest) vertices =
      withVertices rt t rest (withVertices rt t first vertices) := by
  funext v
  simp [withVertices, derivedVertices, insertAll_append]

/-- No document deletes a row that another derives. -/
theorem not_superseded_of_derived {dataId : String} {data : Document}
    (hfresh : dataId ∉ documents.map Prod.fst) {r : EdgeRelation} {row : EdgeRow r}
    (hrow : row ∈ (deriveDocument rt t dataId data).edges r) : ¬Superseded rt t documents row := by
  rintro ⟨other, hmem, _, hnames⟩
  have hscope : documentScope r ≠ none := by
    intro hnone
    simp [EdgeRow.Names, hnone] at hnames
  have hid := EdgeRow.names_injective hnames (names_of_derived hscope hrow)
  exact hfresh (hid ▸ List.mem_map_of_mem hmem)

theorem superseded_append {r : EdgeRelation} {row : EdgeRow r} :
    Superseded rt t (first ++ rest) row ↔ Superseded rt t first row ∨ Superseded rt t rest row := by
  simp only [Superseded, List.mem_append, or_and_right, exists_or]

theorem withEdges_append (hfresh : ∀ document ∈ first, document.1 ∉ rest.map Prod.fst)
    (edges : (r : EdgeRelation) → Finset (EdgeRow r)) :
    withEdges rt t (first ++ rest) edges = withEdges rt t rest (withEdges rt t first edges) := by
  funext r
  have hspared : ∀ row ∈ derivedEdges rt t r first, ¬Superseded rt t rest row := by
    intro row hrow
    obtain ⟨dataId, data, hmem, hderived⟩ := mem_derivedEdges.1 hrow
    exact not_superseded_of_derived (hfresh (dataId, data) hmem) hderived
  have hkey : ∀ a b : EdgeRow r, a.key = b.key → ¬Superseded rt t rest a →
      ¬Superseded rt t rest b := by
    rintro a b hab hnot ⟨other, hmem, hreplaced, hnames⟩
    exact hnot ⟨other, hmem, hreplaced, EdgeRow.names_of_key hab.symm hnames⟩
  have happend : derivedEdges rt t r (first ++ rest) =
      derivedEdges rt t r first ++ derivedEdges rt t r rest := by
    simp [derivedEdges]
  rw [withEdges, happend, insertAll_append, withEdges, withEdges, filter_insertAll hkey hspared,
    Finset.filter_filter]
  have hboth : (edges r).filter (fun row => ¬Superseded rt t (first ++ rest) row) =
      (edges r).filter fun row => ¬Superseded rt t first row ∧ ¬Superseded rt t rest row :=
    Finset.filter_congr fun row _ => by rw [superseded_append, not_or]
  rw [hboth]

end

@[simp] theorem withVertices_nil (vertices : (v : VertexRelation) → Finset (VertexRow v)) :
    withVertices rt t [] vertices = vertices := rfl

@[simp] theorem withEdges_nil (edges : (r : EdgeRelation) → Finset (EdgeRow r)) :
    withEdges rt t [] edges = edges := by
  funext r
  simp [withEdges, derivedEdges, Superseded]

/-! ### The rows of each document -/

/-- A derived row is written unless its key is taken by a row no document replaces. -/
theorem mem_withEdges {r : EdgeRelation} {row : EdgeRow r} {edges : (r : EdgeRelation) → Finset (EdgeRow r)}
    (hids : (documents.map Prod.fst).Nodup) : row ∈ withEdges rt t documents edges r ↔
      (row ∈ edges r ∧ ¬Superseded rt t documents row) ∨
        (row ∈ derivedEdges rt t r documents ∧
          ¬Taken EdgeRow.key ((edges r).filter fun row => ¬Superseded rt t documents row) row) := by
  rw [withEdges, mem_insertAll, Finset.mem_filter]
  refine or_congr Iff.rfl ?_
  constructor
  · rintro ⟨hfree, hfind⟩
    exact ⟨List.mem_of_find?_eq_some hfind, hfree⟩
  · rintro ⟨hrow, hfree⟩
    refine ⟨hfree, ?_⟩
    cases hfind : (derivedEdges rt t r documents).find? (fun other => other.key = row.key) with
    | none => exact absurd (List.find?_eq_none.1 hfind row hrow) (by simp)
    | some other =>
      have hkey : other.key = row.key := by simpa using List.find?_some hfind
      rw [derivedEdges_key_injective hids (List.mem_of_find?_eq_some hfind) hrow hkey]

theorem superseded_of_derived {r : EdgeRelation} {row : EdgeRow r} (hscope : documentScope r ≠ none)
    (hrow : row ∈ derivedEdges rt t r documents) : Superseded rt t documents row := by
  obtain ⟨dataId, data, hmem, hderived⟩ := mem_derivedEdges.1 hrow
  exact ⟨(dataId, data), hmem, replaced_of_derived hscope hderived, names_of_derived hscope hderived⟩

/-- A scoped relation: the superseded rows are exchanged for the derived ones. -/
theorem mem_withEdges_scoped {r : EdgeRelation} {row : EdgeRow r} (hscope : documentScope r ≠ none)
    {edges : (r : EdgeRelation) → Finset (EdgeRow r)} (hids : (documents.map Prod.fst).Nodup) :
    row ∈ withEdges rt t documents edges r ↔
      (row ∈ edges r ∧ ¬Superseded rt t documents row) ∨ row ∈ derivedEdges rt t r documents := by
  rw [mem_withEdges hids]
  refine or_congr Iff.rfl (and_iff_left_of_imp fun hrow => ?_)
  rintro ⟨other, hother, hkey⟩
  obtain ⟨document, hmem, hreplaced, hnames⟩ := superseded_of_derived hscope hrow
  exact (Finset.mem_filter.1 hother).2 ⟨document, hmem, hreplaced, EdgeRow.names_of_key hkey.symm hnames⟩

/-- An additive relation gains the derived rows. -/
theorem mem_withEdges_additive {r : EdgeRelation} {row : EdgeRow r} (hscope : documentScope r = none)
    {edges : (r : EdgeRelation) → Finset (EdgeRow r)} (hids : (documents.map Prod.fst).Nodup) :
    row ∈ withEdges rt t documents edges r ↔ row ∈ edges r ∨ row ∈ derivedEdges rt t r documents := by
  have hspared : ∀ row : EdgeRow r, ¬Superseded rt t documents row := by
    rintro row ⟨document, _, _, hnames⟩
    simp [EdgeRow.Names, hscope] at hnames
  have hadditive : ∀ column ∈ edgeColumns r, column.describes = false := by
    cases r <;> first | decide | cases hscope
  rw [mem_withEdges hids, and_iff_left (hspared row)]
  by_cases hrow : row ∈ edges r
  · simp [hrow]
  · refine or_congr Iff.rfl (and_iff_left_of_imp fun _ => ?_)
    rintro ⟨other, hother, hkey⟩
    exact hrow (EdgeRow.key_injective hadditive hkey ▸ (Finset.mem_filter.1 hother).1)

/-- The rows of a replaced document. -/
theorem mem_withEdges_of_replaced {r : EdgeRelation} {row : EdgeRow r} {document : String × Document}
    {edges : (r : EdgeRelation) → Finset (EdgeRow r)} (hids : (documents.map Prod.fst).Nodup)
    (hmem : document ∈ documents) (hreplaced : r ∈ (deriveDocument rt t document.1 document.2).replaced) :
    row ∈ withEdges rt t documents edges r ∧ row.Names document.1 ↔
      row ∈ (deriveDocument rt t document.1 document.2).edges r := by
  have hscope : documentScope r ≠ none := scoped_of_mem_purgeScope (mem_purgeScope_of_replaced hreplaced)
  rw [mem_withEdges_scoped hscope hids]
  constructor
  · rintro ⟨⟨_, hspared⟩ | hderived, hnames⟩
    · exact absurd ⟨document, hmem, hreplaced, hnames⟩ hspared
    · obtain ⟨dataId, data, hother, hderived⟩ := mem_derivedEdges.1 hderived
      have hid := EdgeRow.names_injective (names_of_derived hscope hderived) hnames
      have hsame : (dataId, data) = document := List.inj_on_of_nodup_map hids hother hmem hid
      rwa [← hsame]
  · exact fun hderived => ⟨.inr (mem_derivedEdges.2 ⟨document.1, document.2, hmem, hderived⟩),
      names_of_derived hscope hderived⟩

/-- Every other row of a scoped relation is as it was. -/
theorem mem_withEdges_of_spared {r : EdgeRelation} {row : EdgeRow r} (hscope : documentScope r ≠ none)
    {edges : (r : EdgeRelation) → Finset (EdgeRow r)} (hids : (documents.map Prod.fst).Nodup)
    (hspared : ¬Superseded rt t documents row) :
    row ∈ withEdges rt t documents edges r ↔ row ∈ edges r := by
  rw [mem_withEdges_scoped hscope hids, and_iff_left hspared]
  exact or_iff_left fun hderived => hspared (superseded_of_derived hscope hderived)

theorem withEdges_perm {documents' : List (String × Document)} (hperm : documents'.Perm documents)
    (hids : (documents.map Prod.fst).Nodup) (edges : (r : EdgeRelation) → Finset (EdgeRow r)) :
    withEdges rt t documents' edges = withEdges rt t documents edges := by
  have hids' : (documents'.map Prod.fst).Nodup := (hperm.map Prod.fst).nodup_iff.2 hids
  funext r
  ext row
  have hsuperseded : ∀ row : EdgeRow r, Superseded rt t documents' row ↔ Superseded rt t documents row := by
    intro row
    simp only [Superseded, hperm.mem_iff]
  have hderived : row ∈ derivedEdges rt t r documents' ↔ row ∈ derivedEdges rt t r documents := by
    simp only [mem_derivedEdges, hperm.mem_iff]
  rw [mem_withEdges hids', mem_withEdges hids, hderived]
  simp only [hsuperseded]

theorem withEdges_idempotent (hids : (documents.map Prod.fst).Nodup)
    (edges : (r : EdgeRelation) → Finset (EdgeRow r)) :
    withEdges rt t documents (withEdges rt t documents edges) = withEdges rt t documents edges := by
  funext r
  ext row
  by_cases hscope : documentScope r = none
  · simp only [mem_withEdges_additive hscope hids, or_assoc, or_self]
  · simp only [mem_withEdges_scoped hscope hids]
    constructor
    · rintro (⟨⟨hrow, hspared⟩ | hderived, hspared'⟩ | hderived)
      · exact .inl ⟨hrow, hspared⟩
      · exact absurd (superseded_of_derived hscope hderived) hspared'
      · exact .inr hderived
    · rintro (⟨hrow, hspared⟩ | hderived)
      · exact .inl ⟨.inl ⟨hrow, hspared⟩, hspared⟩
      · exact .inr hderived

theorem withVertices_idempotent (vertices : (v : VertexRelation) → Finset (VertexRow v)) :
    withVertices rt t documents (withVertices rt t documents vertices) = withVertices rt t documents vertices := by
  funext v
  ext row
  rw [withVertices, mem_insertAll]
  refine or_iff_left ?_
  rintro ⟨hfree, hfind⟩
  exact hfree (taken_insertAll (List.mem_of_find?_eq_some hfind))

end

/-- `write_document_graph`, on any tables: a replaced relation holds a document's derived rows and
    no others of it, every other scoped row is as it was, the additive relations gain the derived
    rows, and a vertex is added where its key was free, as the first row offered for it.  The order
    of the documents makes no difference to the edges, and writing them again makes none at all. -/
theorem document_replacement_is_exact (rt : Runtime) (t : DataType) (documents : List (String × Document))
    (st : Store) (hids : (documents.map Prod.fst).Nodup) :
    ∃ st', (writeDocumentGraph rt t documents).serial engine.alone st = .ok (⟨⟩, st') ∧
      (∀ document ∈ documents, ∀ r ∈ (deriveDocument rt t document.1 document.2).replaced,
        ∀ row : EdgeRow r, row ∈ st'.edges r ∧ row.Names document.1 ↔
          row ∈ (deriveDocument rt t document.1 document.2).edges r) ∧
      (∀ r, documentScope r ≠ none → ∀ row : EdgeRow r,
        (∀ document ∈ documents, r ∈ (deriveDocument rt t document.1 document.2).replaced →
          ¬row.Names document.1) → (row ∈ st'.edges r ↔ row ∈ st.edges r)) ∧
      (∀ r, documentScope r = none → ∀ row : EdgeRow r, row ∈ st'.edges r ↔ row ∈ st.edges r ∨
        ∃ document ∈ documents, row ∈ (deriveDocument rt t document.1 document.2).edges r) ∧
      (∀ v, ∀ row : VertexRow v, row ∈ st'.vertices v ↔ row ∈ st.vertices v ∨
        ¬Taken VertexRow.key (st.vertices v) row ∧
          (documents.flatMap fun document => (deriveDocument rt t document.1 document.2).vertices v).find?
            (fun other => other.key = row.key) = some row) ∧
      st'.entities = st.entities ∧ st'.aliases = st.aliases ∧
      (∀ documents', documents'.Perm documents → ∃ st'',
        (writeDocumentGraph rt t documents').serial engine.alone st = .ok (⟨⟩, st'') ∧
          st''.edges = st'.edges) ∧
      (writeDocumentGraph rt t documents).serial engine.alone st' = .ok (⟨⟩, st') := by
  refine ⟨_, serial_writeDocumentGraph hids st, ?_, ?_, ?_, ?_, rfl, rfl, ?_, ?_⟩
  · intro document hmem r hreplaced row
    exact mem_withEdges_of_replaced hids hmem hreplaced
  · intro r hscope row hspared
    refine mem_withEdges_of_spared hscope hids ?_
    rintro ⟨document, hmem, hreplaced, hnames⟩
    exact hspared document hmem hreplaced hnames
  · intro r hscope row
    rw [mem_withEdges_additive hscope hids, derivedEdges, List.mem_flatMap]
  · intro v row
    exact mem_insertAll
  · intro documents' hperm
    have hids' : (documents'.map Prod.fst).Nodup := (hperm.map Prod.fst).nodup_iff.2 hids
    exact ⟨_, serial_writeDocumentGraph hids' st, withEdges_perm hperm hids st.edges⟩
  · rw [serial_writeDocumentGraph hids]
    simp only [withVertices_idempotent, withEdges_idempotent hids]

/-! ## A corrected release -/

def houseDocument : Document := [("genres", .arr [.str "House"])]

def dubDocument : Document := [("genres", .arr [.str "Dub"])]

/-- Release 7 is stored as House. -/
def houseStore : Store where
  entities _ := .empty
  vertices _ := ∅
  edges := Function.update (fun _ => ∅) .inGenre {⟨[.text "7", .text "House"], rfl⟩}
  aliases _ := none

theorem document_replacement_of_corrected : ∃ st',
    (writeDocumentGraph concreteRuntime .releases [("7", dubDocument), ("8", houseDocument)]).serial
      engine.alone houseStore = .ok (⟨⟩, st') ∧
    ∀ row : EdgeRow .inGenre, row ∈ st'.edges .inGenre ∧ row.Names "7" ↔
      row ∈ (deriveDocument concreteRuntime .releases "7" dubDocument).edges .inGenre := by
  obtain ⟨st', hserial, hreplaced, _⟩ := document_replacement_is_exact concreteRuntime .releases
    [("7", dubDocument), ("8", houseDocument)] houseStore (by decide)
  exact ⟨st', hserial, hreplaced ("7", dubDocument) (by simp) .inGenre (by decide)⟩

end Tableinator
