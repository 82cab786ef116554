import Tableinator.Store.Sweep

/-! # Edges and their endpoints

Vertices are written only with the documents that assert them, while edges are also
inserted by the sweep, from the documents stored.  What carries the closure is that a
document is stored only once its vertices are: the sweep then finds the vertices of
whatever it asserts, and no vertex is ever deleted. -/

namespace Tableinator

open Effect Relational Tableinator.Graph

/-! ## The vertices of a derived edge -/

/-- The vertex relation a column of an edge relation refers to. -/
def endpoint : Column → Option VertexRelation
  | .genreName => some .genre
  | .styleName => some .style
  | .personName => some .person
  | .mediumId => some .medium
  | .companyId => some .company
  | _ => none

/-- The one column of the relation that refers to a vertex. -/
def endpointOf : EdgeRelation → Option (Column × VertexRelation)
  | .inGenre | .masterInGenre => some (.genreName, .genre)
  | .inStyle | .masterInStyle => some (.styleName, .style)
  | .creditedOn | .sameAs | .trackCreditedOn => some (.personName, .person)
  | .issuedOn => some (.mediumId, .medium)
  | .creditedTo => some (.companyId, .company)
  | _ => none

theorem endpointOf_eq {r : EdgeRelation} {column : Column} {v : VertexRelation}
    (hcolumn : column ∈ edgeColumns r) (hv : endpoint column = some v) :
    endpointOf r = some (column, v) := by
  have hall : ∀ r ∈ edgeRelations, ∀ column ∈ edgeColumns r,
      endpoint column = none ∨ endpointOf r = (endpoint column).map (Prod.mk column) := by decide
  rcases hall r (mem_edgeRelations r) column hcolumn with hnone | hsome
  · rw [hv] at hnone
    cases hnone
  · rw [hsome, hv]
    rfl

/-- The family of a medium row. -/
def mediumFamily (row : VertexRow .medium) : Option Cell := row.cells[1]?

variable {rt : Runtime} {t t' : DataType} {dataId : String} {data : Document} {r : EdgeRelation}
variable {st st' : Store}

theorem identifiedPersons_name {found : List Credit} {edge : EdgeRow .sameAs}
    (h : edge ∈ identifiedPersons found) :
    ∃ credit ∈ found, edge.cell .personName = some (.text credit.name) := by
  obtain ⟨credit, hcredit, hmap⟩ := List.mem_filterMap.1 h
  obtain ⟨artist, _, rfl⟩ := Option.map_eq_some_iff.1 hmap
  exact ⟨credit, hcredit, rfl⟩

/-- The persons a release derives: its own credits', and its tracks'. -/
theorem derived_person {credit : Credit}
    (h : credit ∈ credits rt (data.get "extraartists") ∨
      credit ∈ (trackCredits rt (data.get "tracklist")).map Prod.snd) :
    ∃ vertex ∈ (deriveDocument rt .releases dataId data).vertices .person,
      vertex.key = some (.text credit.name) := by
  refine ⟨⟨[.text credit.name], rfl⟩, mem_unique.2 (List.mem_append.2 ?_), rfl⟩
  rcases h with hown | htrack
  · exact .inl (List.mem_map.2 ⟨credit, hown, rfl⟩)
  · obtain ⟨⟨unit, credit⟩, hmem, rfl⟩ := List.mem_map.1 htrack
    exact .inr (List.mem_map.2 ⟨(unit, credit), hmem, rfl⟩)

/-- The vertex a derived edge refers to is derived with it. -/
theorem derived_endpoint {edge : EdgeRow r} {column : Column} {v : VertexRelation}
    (hr : endpointOf r = some (column, v)) (h : edge ∈ (deriveDocument rt t dataId data).edges r) :
    ∃ vertex ∈ (deriveDocument rt t dataId data).vertices v, vertex.key = edge.cell column := by
  cases t with
  | labels => simp [deriveDocument, DocumentGraph.empty] at h
  | artists =>
    cases r <;> simp [endpointOf] at hr <;> simp [deriveDocument, deriveArtist] at h
  | masters =>
    cases r <;> simp [endpointOf] at hr <;> obtain ⟨rfl, rfl⟩ := hr
    case masterInGenre =>
      obtain ⟨name, hname, rfl⟩ := List.mem_map.1 h
      exact ⟨⟨[.text name], rfl⟩, List.mem_map.2 ⟨name, hname, rfl⟩, rfl⟩
    case masterInStyle =>
      obtain ⟨name, hname, rfl⟩ := List.mem_map.1 h
      exact ⟨⟨[.text name], rfl⟩, List.mem_map.2 ⟨name, hname, rfl⟩, rfl⟩
    all_goals simp [deriveDocument, deriveMaster] at h
  | releases =>
    cases r <;> simp [endpointOf] at hr <;> obtain ⟨rfl, rfl⟩ := hr
    -- each edge comes from an entry of the list its vertex comes from
    case inGenre =>
      obtain ⟨name, hname, rfl⟩ := List.mem_map.1 h
      exact ⟨⟨[.text name], rfl⟩, List.mem_map.2 ⟨name, hname, rfl⟩, rfl⟩
    case inStyle =>
      obtain ⟨name, hname, rfl⟩ := List.mem_map.1 h
      exact ⟨⟨[.text name], rfl⟩, List.mem_map.2 ⟨name, hname, rfl⟩, rfl⟩
    case creditedOn =>
      obtain ⟨credit, hcredit, rfl⟩ := List.mem_map.1 (mem_unique.1 h)
      exact derived_person (.inl hcredit)
    case trackCreditedOn =>
      obtain ⟨⟨unit, credit⟩, hcredit, rfl⟩ := List.mem_map.1 (mem_unique.1 h)
      exact derived_person (.inr (List.mem_map.2 ⟨(unit, credit), hcredit, rfl⟩))
    -- a person is identified by a credit of the release or of a track
    case sameAs =>
      rcases List.mem_append.1 (mem_unique.1 h) with hown | htrack
      · obtain ⟨credit, hcredit, hcell⟩ := identifiedPersons_name hown
        rw [hcell]
        exact derived_person (.inl hcredit)
      · obtain ⟨credit, hcredit, hcell⟩ := identifiedPersons_name htrack
        rw [hcell]
        exact derived_person (.inr hcredit)
    case issuedOn =>
      obtain ⟨item, hitem, rfl⟩ := List.mem_map.1 h
      exact ⟨⟨[.text item.medium, .text item.family, .text item.label], rfl⟩,
        List.mem_map.2 ⟨item, hitem, rfl⟩, rfl⟩
    case creditedTo =>
      obtain ⟨row, hrow, rfl⟩ := List.mem_map.1 h
      exact ⟨⟨[.text row.companyId, .text row.name, Cell.ofOption (discogsLabelId row.companyId)], rfl⟩,
        List.mem_map.2 ⟨row, hrow, rfl⟩, rfl⟩
    all_goals simp [deriveDocument, deriveRelease] at h

/-- The family of a derived medium is derived with it. -/
theorem derived_family {medium : VertexRow .medium}
    (h : medium ∈ (deriveDocument rt t dataId data).vertices .medium) :
    ∃ family ∈ (deriveDocument rt t dataId data).vertices .mediaFamily,
      family.key = mediumFamily medium := by
  cases t with
  | releases =>
    obtain ⟨item, hitem, rfl⟩ := List.mem_map.1 h
    exact ⟨⟨[.text item.family], rfl⟩, mem_unique.2 (List.mem_map.2 ⟨item, hitem, rfl⟩), rfl⟩
  | _ => simp [deriveDocument, deriveArtist, deriveMaster, DocumentGraph.empty] at h

/-! ## Closed stores -/

/-- A stored vertex has this key. -/
def HasVertex (v : VertexRelation) (key : Option Cell) (st : Store) : Prop :=
  ∃ vertex ∈ st.vertices v, vertex.key = key

/-- Every vertex of the document is stored. -/
def Anchored (rt : Runtime) (t : DataType) (dataId : String) (data : Json) (st : Store) : Prop :=
  ∀ v, ∀ vertex ∈ (deriveStored rt t dataId data).vertices v, HasVertex v vertex.key st

structure Closed (rt : Runtime) (st : Store) : Prop where
  edges : ∀ r column v, endpointOf r = some (column, v) → ∀ edge ∈ st.edges r,
    HasVertex v (edge.cell column) st
  families : ∀ medium ∈ st.vertices .medium, HasVertex .mediaFamily (mediumFamily medium) st
  documents : ∀ t dataId row, (st.entities t).lookup dataId = some row →
    Anchored rt t dataId row.data st

theorem closed_empty : Closed rt Store.empty where
  edges r column v _ edge hedge := by simp [Store.empty] at hedge
  families medium hmedium := by simp [Store.empty] at hmedium
  documents t dataId row hrow := by simp [Store.empty] at hrow

/-- No vertex changes, no edge is new, and no payload is. -/
structure Shrinks (st st' : Store) : Prop where
  vertices : st'.vertices = st.vertices
  edges : ∀ r, st'.edges r ⊆ st.edges r
  payloads : ∀ t dataId row', (st'.entities t).lookup dataId = some row' →
    ∃ row, (st.entities t).lookup dataId = some row ∧ row.data = row'.data

theorem Closed.shrinks (h : Closed rt st) (hshrinks : Shrinks st st') : Closed rt st' where
  edges r column v hr edge hedge := by
    rw [HasVertex, hshrinks.vertices]
    exact h.edges r column v hr edge (hshrinks.edges r hedge)
  families medium hmedium := by
    rw [hshrinks.vertices] at hmedium
    rw [HasVertex, hshrinks.vertices]
    exact h.families medium hmedium
  documents t dataId row' hrow' v vertex hvertex := by
    obtain ⟨row, hrow, hdata⟩ := hshrinks.payloads t dataId row' hrow'
    rw [← hdata] at hvertex
    rw [HasVertex, hshrinks.vertices]
    exact h.documents t dataId row hrow v vertex hvertex

theorem Shrinks.refl (st : Store) : Shrinks st st :=
  ⟨rfl, fun _ => Finset.Subset.refl _, fun _ _ row hrow => ⟨row, hrow, rfl⟩⟩

theorem shrinks_prune {r : EdgeRelation} {p : EdgeRow r → Bool} :
    Shrinks st ((Change.prune r p).apply st) := by
  refine ⟨rfl, fun r' => ?_, fun _ _ row hrow => ⟨row, hrow, rfl⟩⟩
  by_cases hr : r' = r
  · subst hr
    simp [Change.apply, Finset.filter_subset]
  · simp [Change.apply, Function.update_of_ne hr]

theorem shrinks_aliases {targets : List (AliasRef × NativeId)} :
    Shrinks st ((Change.aliases targets).apply st) :=
  ⟨rfl, fun _ => Finset.Subset.refl _, fun _ _ row hrow => ⟨row, hrow, rfl⟩⟩

theorem shrinks_entities {ids : List String} {f : String → Option EntityRow → Option EntityRow}
    (hdata : ∀ dataId row row', f dataId row = some row' → ∃ kept, row = some kept ∧ kept.data = row'.data) :
    Shrinks st ((Change.entities t ids f).apply st) := by
  refine ⟨rfl, fun _ => Finset.Subset.refl _, fun t' dataId row' hrow' => ?_⟩
  rw [lookup_entities_apply] at hrow'
  split at hrow'
  · obtain ⟨kept, hkept, hsame⟩ := hdata _ _ _ hrow'
    exact ⟨kept, hkept, hsame⟩
  · exact ⟨row', hrow', rfl⟩

/-! ## Writing the graph of documents already stored -/

section

variable {documents : List (String × Document)} {v : VertexRelation}

theorem mem_vertexRows {vertex : VertexRow v} : vertex ∈ vertexRows rt t documents v ↔
    ∃ dataId data, (dataId, data) ∈ documents ∧
      vertex ∈ (deriveDocument rt t dataId data).vertices v := by
  simp only [vertexRows, derivedGraphs, List.mem_insertionSort, mem_unique, List.mem_flatMap,
    List.mem_map, Prod.exists]
  constructor
  · rintro ⟨_, graph, ⟨dataId, data, hmem, heq⟩, hvertex⟩
    obtain ⟨rfl, rfl⟩ := Prod.mk.inj heq
    exact ⟨dataId, data, hmem, hvertex⟩
  · rintro ⟨dataId, data, hmem, hvertex⟩
    exact ⟨dataId, _, ⟨dataId, data, hmem, rfl⟩, hvertex⟩

/-- The batch's documents are stored, and their vertices outside `rest` are written. -/
structure Closing (rt : Runtime) (t : DataType) (documents : List (String × Document))
    (rest : List VertexRelation) (st : Store) : Prop where
  edges : ∀ r column v, endpointOf r = some (column, v) → ∀ edge ∈ st.edges r,
    HasVertex v (edge.cell column) st
  families : ∀ medium ∈ st.vertices .medium, HasVertex .mediaFamily (mediumFamily medium) st ∨
    .mediaFamily ∈ rest ∧ ∃ family ∈ vertexRows rt t documents .mediaFamily,
      family.key = mediumFamily medium
  stored : ∀ t' dataId row, (st.entities t').lookup dataId = some row →
    Anchored rt t' dataId row.data st ∨
      t' = t ∧ ∃ data, (dataId, data) ∈ documents ∧ row.data = .obj data
  written : ∀ v, v ∉ rest → ∀ vertex ∈ vertexRows rt t documents v, HasVertex v vertex.key st

/-- The closure of the store, and the vertices of the batch. -/
def ClosedOver (rt : Runtime) (t : DataType) (documents : List (String × Document)) (st : Store) :
    Prop :=
  Closed rt st ∧ ∀ v, ∀ vertex ∈ vertexRows rt t documents v, HasVertex v vertex.key st

theorem Closing.closedOver (h : Closing rt t documents [] st) : ClosedOver rt t documents st := by
  have hwritten : ∀ v, ∀ vertex ∈ vertexRows rt t documents v, HasVertex v vertex.key st :=
    fun v => h.written v (by simp)
  refine ⟨⟨h.edges, fun medium hmedium => ?_, fun t' dataId row hrow => ?_⟩, hwritten⟩
  · exact (h.families medium hmedium).resolve_right (by simp)
  · rcases h.stored t' dataId row hrow with hanchored | ⟨rfl, data, hmem, hdata⟩
    · exact hanchored
    · intro v vertex hvertex
      rw [hdata] at hvertex
      exact hwritten v vertex (mem_vertexRows.2 ⟨dataId, data, hmem, hvertex⟩)

theorem hasVertex_insertVertices {rows : List (VertexRow v)} {v' : VertexRelation}
    {key : Option Cell} (h : HasVertex v' key st) :
    HasVertex v' key ((Change.vertices v rows).apply st) := by
  obtain ⟨vertex, hvertex, hkey⟩ := h
  refine ⟨vertex, ?_, hkey⟩
  by_cases hv : v' = v
  · subst hv
    simp only [Change.apply, Function.update_self]
    exact mem_insertAll_of_mem hvertex
  · simpa [Change.apply, Function.update_of_ne hv] using hvertex

/-- Inserting the vertices of one relation. -/
theorem Closing.insertVertices {rest : List VertexRelation}
    (h : Closing rt t documents (v :: rest) st) :
    Closing rt t documents rest
      ((Change.vertices v (vertexRows rt t documents v)).apply st) := by
  have hself : ∀ vertex ∈ vertexRows rt t documents v,
      HasVertex v vertex.key ((Change.vertices v (vertexRows rt t documents v)).apply st) := by
    intro vertex hvertex
    have htaken : Taken VertexRow.key
        (insertAll VertexRow.key (st.vertices v) (vertexRows rt t documents v)) vertex :=
      taken_insertAll hvertex
    obtain ⟨other, hother, hkey⟩ := htaken
    exact ⟨other, by simpa only [Change.apply, Function.update_self] using hother, hkey⟩
  -- a family still to come is there once its own relation is inserted
  have hfamily : ∀ {family : VertexRow .mediaFamily}, family ∈ vertexRows rt t documents .mediaFamily →
      HasVertex .mediaFamily family.key
        ((Change.vertices v (vertexRows rt t documents v)).apply st) ∨ .mediaFamily ∈ rest := by
    intro family hfamily
    by_cases hrest : VertexRelation.mediaFamily ∈ rest
    · exact .inr hrest
    · by_cases hv : VertexRelation.mediaFamily = v
      · subst hv
        exact .inl (hself family hfamily)
      · exact .inl (hasVertex_insertVertices (h.written .mediaFamily (by simp [hv, hrest]) family hfamily))
  refine ⟨fun r column v' hr edge hedge => hasVertex_insertVertices (h.edges r column v' hr edge hedge),
    fun medium hmedium => ?_, fun t' dataId row hrow => ?_, fun v' hrest vertex hvertex => ?_⟩
  · have hcases : medium ∈ st.vertices .medium ∨ medium ∈ vertexRows rt t documents .medium := by
      by_cases hv : VertexRelation.medium = v
      · subst hv
        simp only [Change.apply, Function.update_self] at hmedium
        exact mem_of_mem_insertAll hmedium
      · simp only [Change.apply, Function.update_of_ne hv] at hmedium
        exact .inl hmedium
    rcases hcases with hold | hnew
    · rcases h.families medium hold with hhas | ⟨_, family, hmem, hkey⟩
      · exact .inl (hasVertex_insertVertices hhas)
      · rw [← hkey]
        exact (hfamily hmem).imp_right fun hrest => ⟨hrest, family, hmem, rfl⟩
    · obtain ⟨dataId, data, hmem, hderived⟩ := mem_vertexRows.1 hnew
      obtain ⟨family, hfam, hkey⟩ := derived_family hderived
      have hrow := mem_vertexRows.2 ⟨dataId, data, hmem, hfam⟩
      rw [← hkey]
      exact (hfamily hrow).imp_right fun hrest => ⟨hrest, family, hrow, rfl⟩
  · rcases h.stored t' dataId row hrow with hanchored | hpending
    · exact .inl fun v' vertex hvertex => hasVertex_insertVertices (hanchored v' vertex hvertex)
    · exact .inr hpending
  · by_cases hv : v' = v
    · subst hv
      exact hself vertex hvertex
    · exact hasVertex_insertVertices (h.written v' (by simp [hv, hrest]) vertex hvertex)

theorem ClosedOver.shrinks (h : ClosedOver rt t documents st) (hshrinks : Shrinks st st') :
    ClosedOver rt t documents st' := by
  refine ⟨h.1.shrinks hshrinks, fun v vertex hvertex => ?_⟩
  rw [HasVertex, hshrinks.vertices]
  exact h.2 v vertex hvertex

/-- Edges whose vertices are stored may be added. -/
theorem Closed.insertEdges {rows : List (EdgeRow r)} (h : Closed rt st)
    (hrows : ∀ column v, endpointOf r = some (column, v) → ∀ edge ∈ rows,
      HasVertex v (edge.cell column) st) : Closed rt ((Change.edges r rows).apply st) := by
  refine ⟨fun r' column v hr' edge hedge => ?_, h.families, h.documents⟩
  rcases Change.mem_edges_apply hedge with hold | ⟨rows', heq, hrow⟩
  · exact h.edges r' column v hr' edge hold
  · cases heq
    exact hrows column v hr' edge hrow

theorem ClosedOver.insertEdges (h : ClosedOver rt t documents st) (r : EdgeRelation) :
    ClosedOver rt t documents ((Change.edges r (edgeRows rt t documents r)).apply st) := by
  refine ⟨h.1.insertEdges fun column v hr edge hedge => ?_, h.2⟩
  obtain ⟨dataId, data, hmem, hderived⟩ := mem_edgeRows.1 hedge
  obtain ⟨vertex, hvertex, hkey⟩ := derived_endpoint hr hderived
  rw [← hkey]
  exact h.2 v vertex (mem_vertexRows.2 ⟨dataId, data, hmem, hvertex⟩)

/-- Partial correctness of a transaction that runs alone. -/
abbrev AloneEnsures {α : Type} (program : Transaction α) (Q : Store → α → Prop) (st : Store) : Prop :=
  Program.wlp (Program.Alone engine.alone) (fun _ => True) program Q st

/-- `write_document_graph` closes a store that holds its documents. -/
theorem closed_writeDocumentGraph
    (h : Closing rt t documents (vertexRelations.filter fun v => vertexRows rt t documents v ≠ []) st) :
    AloneEnsures (writeDocumentGraph rt t documents) (fun st _ => Closed rt st) st := by
  simp only [AloneEnsures, writeDocumentGraph, Program.wlp_bind]
  refine Program.wlp_mono (Program.wlp_forM (fun rest st => Closing rt t documents rest st) h
    fun v rest st h => Program.wlp_alone_await h.insertVertices) fun st _ h => ?_
  refine Program.wlp_mono (Program.wlp_forM (fun _ st => ClosedOver rt t documents st) h.closedOver
    fun r rest st h => Program.wlp_alone_await (h.shrinks shrinks_prune)) fun st _ h => ?_
  exact Program.wlp_mono (Program.wlp_forM (fun _ st => ClosedOver rt t documents st) h
    fun r rest st h => Program.wlp_alone_await (h.insertEdges r)) fun st _ h => h.1

/-- A closed store in which some of the batch's documents have just been stored. -/
theorem closing_of_stored (h : Closed rt st) (hvertices : st'.vertices = st.vertices)
    (hedges : st'.edges = st.edges)
    (hdocuments : ∀ t' dataId row', (st'.entities t').lookup dataId = some row' →
      (∃ row, (st.entities t').lookup dataId = some row ∧ row.data = row'.data) ∨
        t' = t ∧ ∃ data, (dataId, data) ∈ documents ∧ row'.data = .obj data) :
    Closing rt t documents (vertexRelations.filter fun v => vertexRows rt t documents v ≠ []) st' := by
  have hhas : ∀ {v key}, HasVertex v key st → HasVertex v key st' := by
    intro v key hkey
    rw [HasVertex, hvertices]
    exact hkey
  refine ⟨fun r column v hr edge hedge => ?_, fun medium hmedium => ?_, fun t' dataId row' hrow' => ?_,
    fun v hrest vertex hvertex => ?_⟩
  · rw [hedges] at hedge
    exact hhas (h.edges r column v hr edge hedge)
  · rw [hvertices] at hmedium
    exact .inl (hhas (h.families medium hmedium))
  · refine (hdocuments t' dataId row' hrow').imp_left ?_
    rintro ⟨row, hrow, hdata⟩ v vertex hvertex
    rw [← hdata] at hvertex
    exact hhas (h.documents t' dataId row hrow v vertex hvertex)
  · refine absurd (List.mem_filter.2 ⟨mem_vertexRelations v, ?_⟩) hrest
    simpa using List.ne_nil_of_mem hvertex

end

/-! ## The transactions -/

theorem closing_attachAliasTargets {documents : List (String × Document)} {rest : List VertexRelation}
    (targets : List (AliasRef × NativeId)) (h : Closing rt t documents rest st) :
    AloneEnsures (attachAliasTargets targets) (fun st _ => Closing rt t documents rest st) st := by
  unfold attachAliasTargets unlessEmpty
  split
  · exact h
  · exact Program.wlp_alone_await ⟨h.edges, h.families, h.stored, h.written⟩

/-- Statements that only take rows away keep the store closed. -/
theorem closed_of_issues {α : Type} {program : Transaction α} (h : Closed rt st)
    (hissues : Program.Issues (fun op => ∀ st, Shrinks st (engine.alone op st).2) program) :
    AloneEnsures program (fun st _ => Closed rt st) st := by
  refine Program.wlp_of_issues (fun op reply st st' hshrinks hst hstep => ?_) hissues h
  obtain ⟨rfl, rfl⟩ := Prod.mk.inj hstep
  exact ⟨trivial, hst.shrinks (hshrinks st)⟩

theorem closed_persistRecord {now : Time} (h : Closed rt st) :
    AloneEnsures (persistRecord rt now t dataId data) (fun st _ => Closed rt st) st := by
  unfold persistRecord
  cases rt.resolveAlias (aliasRef t dataId) with
  | none => trivial
  | some gmItemId =>
    simp only
    cases rowHash rt t dataId data (contentHash data) with
    | none => trivial
    | some hash =>
      simp only [AloneEnsures, Program.wlp_bind]
      refine Program.wlp_alone_await ?_
      cases aliasTargets rt t [(data, gmItemId)] with
      | none => trivial
      | some targets =>
        simp only [Program.wlp_bind]
        cases hchanged : contentChanged (engine.alone (Statement.upsertRecord t now
            (recordParameters rt t hash dataId data gmItemId)) st).1 with
        | true =>
          have hstored : Closing rt t [(dataId, data)]
              (vertexRelations.filter fun v => vertexRows rt t [(dataId, data)] v ≠ [])
              (engine.alone (Statement.upsertRecord t now
                (recordParameters rt t hash dataId data gmItemId)) st).2 := by
            refine closing_of_stored h rfl rfl fun t' dataId' row' hrow' => ?_
            rw [alone_store] at hrow'
            refine (payloads_upsertRecord hrow').imp_right fun hnew => ?_
            obtain ⟨ht, hid, hdata, _⟩ := hnew
            refine ⟨ht, data, ?_, hdata⟩
            rw [hid]
            exact List.mem_singleton.2 rfl
          refine Program.wlp_mono (closing_attachAliasTargets targets hstored) fun st _ h => ?_
          simp only [if_true, Program.wlp_bind]
          exact Program.wlp_mono (closed_writeDocumentGraph h) fun st _ h => h
        | false =>
          have hsame : StoresHash t dataId hash st :=
            (contentChanged_eq_false_iff t now (recordParameters rt t hash dataId data gmItemId) st).1
              hchanged
          have hshrinks : Shrinks st (engine.alone (Statement.upsertRecord t now
              (recordParameters rt t hash dataId data gmItemId)) st).2 := by
            refine ⟨rfl, fun _ => Finset.Subset.refl _, fun t' dataId' row' hrow' => ?_⟩
            rw [alone_store] at hrow'
            exact (payloads_upsertRecord hrow').resolve_right fun hnew => hnew.2.2.2 hsame
          exact Program.wlp_mono (closed_of_issues (h.shrinks hshrinks)
            (issues_unlessEmpty fun _ => shrinks_aliases)) fun st _ h => h

theorem shrinks_update {ids : List String} {f : String → EntityRow → EntityRow}
    (hdata : ∀ dataId row, (f dataId row).data = row.data) :
    Shrinks st ((Change.entities t ids fun dataId row => row.map (f dataId)).apply st) := by
  refine shrinks_entities fun dataId row row' hrow' => ?_
  obtain ⟨kept, hkept, rfl⟩ := Option.map_eq_some_iff.1 hrow'
  exact ⟨kept, hkept, (hdata dataId kept).symm⟩

theorem closed_writeChanged {now : Time} {records : List BatchRecord} {existing : List Existing}
    {targets : List (AliasRef × NativeId)} (h : Closed rt st) :
    AloneEnsures (writeChanged rt now t existing (resolved rt t records) targets)
      (fun st _ => Closed rt st) st := by
  unfold writeChanged
  dsimp only
  split
  · trivial
  simp only [AloneEnsures, Program.wlp_bind]
  have hupserted : AloneEnsures (unlessEmpty (recordsToUpsert rt existing (resolved rt t records) t)
      (.upsertRecords t now (recordsToUpsert rt existing (resolved rt t records) t)))
      (fun st _ => Closing rt t (changedDocuments existing (resolved rt t records))
        (vertexRelations.filter fun v =>
          vertexRows rt t (changedDocuments existing (resolved rt t records)) v ≠ []) st) st := by
    unfold unlessEmpty
    split
    · exact closing_of_stored h rfl rfl fun _ _ row hrow => .inl ⟨row, hrow, rfl⟩
    · refine Program.wlp_alone_await (closing_of_stored h rfl rfl fun _ dataId _ hrow => ?_)
      rw [alone_store] at hrow
      refine (payloads_upsertRecords hrow).imp_right fun hnew => ⟨hnew.1, ?_⟩
      obtain ⟨_, incoming, hincoming, rfl, hdata⟩ := hnew
      obtain ⟨record, nativeId, hash, hmem, hchanged, -, rfl⟩ := mem_recordsToUpsert.1 hincoming
      exact ⟨record.data, mem_changedDocuments.2 ⟨record, nativeId, hmem, hchanged, rfl, rfl⟩, hdata⟩
  refine Program.wlp_mono hupserted fun st _ h => ?_
  refine Program.wlp_mono (closing_attachAliasTargets targets h) fun st _ h => ?_
  exact closed_writeDocumentGraph h

theorem closed_processBatch {now : Time} {messages : List BatchRecord} (h : Closed rt st) :
    AloneEnsures (processBatch rt now t messages) (fun st _ => Closed rt st) st := by
  simp only [AloneEnsures, processBatch, Program.wlp_bind]
  refine Program.wlp_alone_await ?_
  split
  · trivial
  · split
    · trivial
    · simp only [Program.wlp_bind]
      refine Program.wlp_mono (closed_of_issues h (issues_refreshUnchanged (fun ids st => ?_)
        (fun rows st => ?_) fun rows st => ?_)) fun st _ h => ?_
      · exact shrinks_update (f := fun _ row => { row with updatedAt := now }) fun _ _ => rfl
      · exact shrinks_update (f := fun dataId row => { row with
          media := rows.lookup dataId, updatedAt := now }) fun _ _ => rfl
      · exact shrinks_update (f := fun dataId row => { row with
          gmItemId := rows.lookup dataId, updatedAt := now }) fun _ _ => rfl
      · exact Program.wlp_mono (closed_writeChanged h) fun st _ h => h

theorem closed_purgeStaleRows {cap : Rat} {startedAt : Option Time} {recordCount : Option Nat}
    (h : Closed rt st) :
    AloneEnsures (purgeStaleRows cap t startedAt recordCount) (fun st _ => Closed rt st) st := by
  refine closed_of_issues h (issues_purgeStaleRows (fun st => Shrinks.refl st)
    (fun _ st => Shrinks.refl st) (fun r _ _ st => shrinks_prune) fun startedAt st => ?_)
  refine shrinks_entities fun dataId row row' hrow' => ⟨row', ?_, rfl⟩
  exact (Option.filter_eq_some_iff.1 hrow').1

/-! ## The sweep -/

/-- Every row of the temporary table has its person or artist vertices stored. -/
def Vouched (a : AdditiveRelation) (asserted : List (EdgeRow a.relation)) (st : Store) : Prop :=
  ∀ column v, endpointOf a.relation = some (column, v) → ∀ edge ∈ asserted,
    HasVertex v (edge.cell column) st

variable {a : AdditiveRelation}

theorem vouched_assertedRows {lastId : String} (h : Closed rt st) :
    Vouched a (assertedRows rt a
      ((Statement.documentPage a lastId documentPageSize).read st)) st := by
  intro column v hr edge hedge
  obtain ⟨dataId, value, hmem, hasserts⟩ := mem_assertedRows.1 hedge
  obtain ⟨row, hpage, rfl⟩ := mem_documentsOf.1 hmem
  have hrow := (Table.of_mem_page hpage).1
  have hanchored := h.documents a.table dataId row hrow
  unfold Anchored asserts at *
  cases hdata : row.data with
  | obj document =>
    rw [hdata] at hasserts hanchored
    obtain ⟨vertex, hvertex, hkey⟩ := derived_endpoint hr hasserts
    rw [← hkey]
    exact hanchored v vertex hvertex
  | _ =>
    rw [hdata] at hasserts
    exact (List.not_mem_nil hasserts).elim

theorem closed_assertedPages {fuel : Nat} {lastId : String} {asserted : List (EdgeRow a.relation)}
    (h : Closed rt st) (hvouched : Vouched a asserted st) :
    AloneEnsures (assertedPages rt a fuel lastId asserted)
      (fun st asserted => Closed rt st ∧ Vouched a asserted st) st := by
  induction fuel generalizing lastId asserted with
  | zero => trivial
  | succ fuel ih =>
    simp only [AloneEnsures, assertedPages, Program.wlp_bind]
    refine Program.wlp_alone_await ?_
    have hpage := @vouched_assertedRows rt st a lastId h
    have hnext : Vouched a (asserted ++ assertedRows rt a
        ((Statement.documentPage a lastId documentPageSize).read st)) st := by
      intro column v hr edge hedge
      rcases List.mem_append.1 hedge with hold | hnew
      · exact hvouched column v hr edge hold
      · exact hpage column v hr edge hnew
    split
    · exact ⟨h, hvouched⟩
    · split
      · exact ⟨h, hnext⟩
      · exact ih hnext

theorem closed_reconcileRelation {fuel : Nat} (h : Closed rt st) :
    AloneEnsures (reconcileRelation rt fuel a) (fun st _ => Closed rt st) st := by
  simp only [AloneEnsures, reconcileRelation, Program.wlp_bind]
  refine Program.wlp_alone_await ?_
  split
  · exact h
  · simp only [Program.wlp_bind]
    refine Program.wlp_mono (closed_assertedPages h fun _ _ _ _ hedge => by simp at hedge)
      fun st asserted h => ?_
    refine Program.wlp_alone_await (Program.wlp_alone_await ?_)
    refine Closed.shrinks (h.1.insertEdges fun column v hr edge hedge => ?_) shrinks_prune
    exact h.2 column v hr edge (mem_unique.1 hedge)

/-! ## Whole runs -/

/-- A transaction of the loader, or of its refresh worker. -/
inductive CatalogTask where
  | operation (op : Operation)
  | reconcileAdditiveEdges (fuel : Nat)

section

variable (rt : Runtime) (cap : Rat)

def CatalogTask.settle (st : Store) (task : CatalogTask) (commits : Bool) : Store :=
  match task with
  | .operation op => op.settle rt cap st commits
  | .reconcileAdditiveEdges fuel =>
    match (Tableinator.reconcileAdditiveEdges rt fuel).serial engine.alone st with
    | .ok (_, st') => if commits then st' else st
    | .error _ => st

def runTasks (steps : List (CatalogTask × Bool)) : Store :=
  steps.foldl (fun st step => step.1.settle rt cap st step.2) Store.empty

end

variable {cap : Rat}

theorem Operation.run_closed {op : Operation} (h : Closed rt st) (hrun : op.run rt cap st = .ok st') :
    Closed rt st' := by
  cases op with
  | processBatch now t messages =>
    obtain ⟨result, hserial⟩ := serial_of_map hrun
    have hclosed := Program.serial_of_wlp_alone (closed_processBatch h) hserial
    exact hclosed
  | persistRecord now t dataId data =>
    obtain ⟨result, hserial⟩ := serial_of_map hrun
    have hclosed := Program.serial_of_wlp_alone (closed_persistRecord h) hserial
    exact hclosed
  | purgeStaleRows t startedAt recordCount =>
    obtain ⟨result, hserial⟩ := serial_of_map hrun
    have hclosed := Program.serial_of_wlp_alone (closed_purgeStaleRows h) hserial
    exact hclosed

theorem CatalogTask.settle_closed (task : CatalogTask) (commits : Bool) (h : Closed rt st) :
    Closed rt (task.settle rt cap st commits) := by
  cases task with
  | operation op => exact settle_inv (Operation.run_closed h) h
  | reconcileAdditiveEdges fuel =>
    have hsweep : AloneEnsures (Tableinator.reconcileAdditiveEdges rt fuel)
        (fun st _ => Closed rt st) st := by
      simp only [AloneEnsures, Tableinator.reconcileAdditiveEdges, Program.wlp_bind]
      exact Program.wlp_mono (closed_reconcileRelation h) fun st _ h => closed_reconcileRelation h
    unfold settle
    dsimp only
    cases hserial : (Tableinator.reconcileAdditiveEdges rt fuel).serial engine.alone st with
    | error e => exact h
    | ok result =>
      obtain ⟨_, st'⟩ := result
      have hswept := Program.serial_of_wlp_alone hsweep hserial
      cases commits with
      | true => exact hswept
      | false => exact h

theorem runTasks_closed (steps : List (CatalogTask × Bool)) : Closed rt (runTasks rt cap steps) := by
  have hloop : ∀ (steps : List (CatalogTask × Bool)) (st : Store), Closed rt st →
      Closed rt (steps.foldl (fun st step => step.1.settle rt cap st step.2) st) := by
    intro steps
    induction steps with
    | nil => exact fun _ h => h
    | cons step steps ih => exact fun st h => ih _ (step.1.settle_closed step.2 h)
  exact hloop steps Store.empty closed_empty

/-- After any run of batches, records, purges and sweeps, every genre, style, person, medium
    and company an edge refers to is stored as a vertex, and so is the family of every
    medium. -/
theorem edges_have_endpoints (steps : List (CatalogTask × Bool)) :
    (∀ r column v, column ∈ edgeColumns r → endpoint column = some v →
      ∀ edge ∈ (runTasks rt cap steps).edges r,
        ∃ vertex ∈ (runTasks rt cap steps).vertices v, vertex.key = edge.cell column) ∧
    ∀ medium ∈ (runTasks rt cap steps).vertices .medium,
      ∃ family ∈ (runTasks rt cap steps).vertices .mediaFamily,
        family.key = mediumFamily medium := by
  have hclosed : Closed rt (runTasks rt cap steps) := runTasks_closed steps
  refine ⟨fun r column v hcolumn hv edge hedge => ?_, hclosed.families⟩
  exact hclosed.edges r column v (endpointOf_eq hcolumn hv) edge hedge

end Tableinator
